import MkyBoot.Lua.Value
import MkyBoot.Url

/-!
# The origin of a request

The handlers that change something first ask for a session and then look at the header
`Origin`, or `Referer` without it.  A value passes if the address of the server occurs in it
anywhere.  `gate_host_iff` says which values of another host that lets through: of the URLs
those with the address in some component, be it as a part of a longer host name, as the user,
in the path or in the query.
-/

namespace MkyBoot
namespace Control

open Lua

/-- `ngx.var.http_origin or ngx.var.http_referer or ""` -/
def originOf (http_origin http_referer : Option Str) : Str :=
  (http_origin.or http_referer).getD []

/-- `mkyboot.cfg.server.ipv4 or "127.0.0.1"` -/
def serverHost (ipv4 : Option Str) : Str := ipv4.getD "127.0.0.1".toList

/-- The check of the origin.  `find` looks for the plain text of the address. -/
def originRefused (ipv4 : Option Str) (origin : Str) : Bool :=
  origin ≠ [] && !decide (serverHost ipv4 <:+: origin) &&
    origin ≠ "http://127.0.0.1:8888".toList && origin ≠ "http://localhost:8888".toList

/-- What a handler answers before it does anything: nothing if the request may go on. -/
def gate (denied invalid : Str) (session : Bool) (ipv4 http_origin http_referer : Option Str) :
    Option Str :=
  if !session then some denied
  else if originRefused ipv4 (originOf http_origin http_referer) then some invalid
  else none

/-- The handler of a request with a body. -/
def postGate : Bool → Option Str → Option Str → Option Str → Option Str :=
  gate "ERROR: Not authenticated".toList "ERROR: Invalid origin".toList

/-- The handler of `api=server`. -/
def apiServerGate : Bool → Option Str → Option Str → Option Str → Option Str :=
  gate "\x7b\"error\":\"Not authenticated\"\x7d".toList
    "\x7b\"error\":\"Invalid origin\"\x7d".toList

/-! ## The hosts of the values that pass -/

/-- The hosts the check is meant for. -/
def allowedHosts (ipv4 : Option Str) : List Str :=
  [serverHost ipv4, "127.0.0.1".toList, "localhost".toList]

def HostAllowed (ipv4 : Option Str) (origin : Str) : Prop :=
  ∃ host ∈ allowedHosts ipv4, hostOf origin = some host

instance (ipv4 : Option Str) (origin : Str) : Decidable (HostAllowed ipv4 origin) :=
  inferInstanceAs (Decidable (∃ host ∈ allowedHosts ipv4, _))

theorem gate_eq_none_iff (denied invalid : Str) (session : Bool)
    (ipv4 http_origin http_referer : Option Str) :
    gate denied invalid session ipv4 http_origin http_referer = none ↔
      session = true ∧ originRefused ipv4 (originOf http_origin http_referer) = false := by
  rw [gate]
  cases session with
  | false => simp
  | true => simp

/-- A value that is not refused is empty, has the address in it, or is one of two values that
name the machine itself. -/
theorem originRefused_eq_false_iff {ipv4 : Option Str} {origin : Str} :
    originRefused ipv4 origin = false ↔
      origin = [] ∨ serverHost ipv4 <:+: origin ∨ origin = "http://127.0.0.1:8888".toList ∨
        origin = "http://localhost:8888".toList := by
  simp only [originRefused, Bool.and_eq_false_iff, Bool.not_eq_false', decide_eq_true_eq,
    decide_eq_false_iff_not, not_not, or_assoc, ne_eq]

theorem hostAllowed_loopback (ipv4 : Option Str) :
    HostAllowed ipv4 "http://127.0.0.1:8888".toList :=
  ⟨"127.0.0.1".toList, by simp [allowedHosts], by decide⟩

theorem hostAllowed_localhost (ipv4 : Option Str) :
    HostAllowed ipv4 "http://localhost:8888".toList :=
  ⟨"localhost".toList, by simp [allowedHosts], by decide⟩

theorem hostAllowed_text_iff (ipv4 : Option Str) (u : Url) :
    HostAllowed ipv4 u.text ↔ u.host ∈ allowedHosts ipv4 := by
  rw [HostAllowed, u.hostOf_text]
  constructor
  · rintro ⟨host, hmem, hhost⟩
    rw [Option.some.inj hhost]
    exact hmem
  · intro hmem
    exact ⟨u.host, hmem, rfl⟩

/-- A URL of another host passes exactly if the address stands in one of its components. -/
theorem foreign_url_passes_iff (ipv4 : Option Str)
    (hipv4 : ∀ c ∈ serverHost ipv4, isDelimiter c = false) (u : Url)
    (hhost : u.host ∉ allowedHosts ipv4) :
    originRefused ipv4 u.text = false ↔ ∃ part ∈ u.components, serverHost ipv4 <:+: part := by
  have hforeign : ¬ HostAllowed ipv4 u.text := fun h => hhost ((hostAllowed_text_iff ipv4 u).mp h)
  rw [← u.infix_text_iff hipv4, originRefused_eq_false_iff]
  constructor
  · rintro (hnil | hoccurs | hloop | hlocal)
    · exact absurd (List.append_eq_nil_iff.mp hnil).1 u.scheme_ne_nil
    · exact hoccurs
    · exact absurd (hloop ▸ hostAllowed_loopback ipv4) hforeign
    · exact absurd (hlocal ▸ hostAllowed_localhost ipv4) hforeign
  · intro hoccurs
    exact Or.inr (Or.inl hoccurs)

/-- For every configuration and every request: what either handler lets go on has one of the
three hosts exactly if its value is empty, has such a host anyway, or does not contain the
address.  A URL of another host is let go on exactly if the address stands in one of its
components. -/
theorem gate_host_iff (denied invalid : Str) (ipv4 http_origin http_referer : Option Str) :
    ((gate denied invalid true ipv4 http_origin http_referer = none →
        originOf http_origin http_referer ≠ [] →
        HostAllowed ipv4 (originOf http_origin http_referer)) ↔
      originOf http_origin http_referer = [] ∨
        HostAllowed ipv4 (originOf http_origin http_referer) ∨
        ¬ serverHost ipv4 <:+: originOf http_origin http_referer) ∧
    ∀ u : Url, originOf http_origin http_referer = u.text → u.host ∉ allowedHosts ipv4 →
      (∀ c ∈ serverHost ipv4, isDelimiter c = false) →
      (gate denied invalid true ipv4 http_origin http_referer = none ↔
        ∃ part ∈ u.components, serverHost ipv4 <:+: part) := by
  rw [gate_eq_none_iff, and_iff_right rfl]
  generalize originOf http_origin http_referer = origin
  refine ⟨?_, ?_⟩
  · rw [originRefused_eq_false_iff]
    constructor
    · intro h
      by_cases hne : origin = []
      · exact Or.inl hne
      · by_cases hoccurs : serverHost ipv4 <:+: origin
        · exact Or.inr (Or.inl (h (Or.inr (Or.inl hoccurs)) hne))
        · exact Or.inr (Or.inr hoccurs)
    · rintro h (hnil | hoccurs | rfl | rfl) hne
      · exact absurd hnil hne
      · rcases h with hnil | hallowed | hnot
        · exact absurd hnil hne
        · exact hallowed
        · exact absurd hoccurs hnot
      · exact hostAllowed_loopback ipv4
      · exact hostAllowed_localhost ipv4
  · rintro u rfl hhost hipv4
    exact foreign_url_passes_iff ipv4 hipv4 u hhost

/-- `https://shop.example:8443/?id=7` -/
def shop : Url where
  scheme := "https".toList
  user := none
  host := "shop.example".toList
  port := some "8443".toList
  rest := "/?id=7".toList
  scheme_ne_nil := by decide
  scheme_closed := by decide
  user_closed := fun _ h => nomatch h
  isHost := Or.inl (by decide)
  port_closed := fun p h => Option.some.inj h ▸ by decide
  rest_open := fun c h => Option.some.inj h ▸ rfl

/-- A URL of another host without the address is turned away. -/
theorem shop_refused : shop.text = "https://shop.example:8443/?id=7".toList ∧
    postGate true (some "192.168.0.1".toList) (some shop.text) none ≠ none := by
  refine ⟨by decide, fun h => ?_⟩
  have hparts := ((gate_host_iff _ _ (some "192.168.0.1".toList) (some shop.text) none).2 shop rfl
    (by decide) (by decide)).mp h
  exact absurd hparts (by decide)

/-- An origin whose host is not allowed passes. -/
def ForeignPasses (origin : String) : Prop :=
  postGate true (some "192.168.0.1".toList) (some origin.toList) none = none ∧
    ¬ HostAllowed (some "192.168.0.1".toList) origin.toList

instance (origin : String) : Decidable (ForeignPasses origin) :=
  inferInstanceAs (Decidable (_ ∧ _))

/-- A longer address, the address as the user of another host, and in its query. -/
theorem foreign_origins_pass : ForeignPasses "http://192.168.0.10" ∧
    ForeignPasses "http://192.168.0.1@evil.example/" ∧
    ForeignPasses "http://evil.example/?192.168.0.1" := by
  decide

end Control
end MkyBoot
