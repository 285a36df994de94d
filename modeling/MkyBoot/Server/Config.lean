import MkyBoot.Json.Struct
import MkyBoot.Server.Admin
import MkyBoot.Server.Atomic
import MkyBoot.Server.Load

/-!
# The configuration of the server

`LoadConfig` never fails: whatever the file holds, it returns a configuration, with an error
beside it if that is not the one of the file.  `Save` checks a configuration as `LoadConfig`
does and writes it by `atomicWriteFile`, which the start of a server does with the defaults
if there is no file.

Both ends meet in `loadConfig_configured`: after any starts and saves, ended by crashes and
losses of power wherever they may, `LoadConfig` returns the defaults or a configuration that
was saved.  An error then has one of two reasons: that the file cannot be read, or that the
address cannot be resolved any more.
-/

namespace MkyBoot
namespace Server

open Posix Machine

/-! ## Configurations

The defaults of the fields are the zero values of Go. -/

structure TFTPConfig where
  enabled : Bool := false
  bindAddress : Str := []
  bindPort : Int64 := 0
  root : Str := []
  deriving DecidableEq

structure DHCPConfig where
  enabled : Bool := false
  bindAddress : Str := []
  bindPort : Int64 := 0
  subnet : Str := []
  rangeStart : Str := []
  rangeEnd : Str := []
  leaseSeconds : Int64 := 0
  gateway : Str := []
  dnsServer : Str := []
  nextServer : Str := []
  bootFileUEFI : Str := []
  bootFileBIOS : Str := []
  deriving DecidableEq

structure PXEConfig where
  tftp : TFTPConfig := {}
  dhcp : DHCPConfig := {}
  deriving DecidableEq

structure StorageConfig where
  enabled : Bool := false
  root : Str := []
  deriving DecidableEq

structure Config where
  bindAddress : Str := []
  bindPort : Int64 := 0
  logDir : Str := []
  pxe : PXEConfig := {}
  storage : StorageConfig := {}
  deriving DecidableEq

def defaultBindAddress : Str := "127.0.0.1".toList

def defaultBindPort : Int64 := 8888

def minPort : Int64 := 1

def maxPort : Int64 := 65535

def maxBindAddressLen : ℕ := 253

def defaultConfig : Config := { bindAddress := defaultBindAddress, bindPort := defaultBindPort }

/-- What the checks take from outside at the moment they are made: `net.ParseIP`,
`net.LookupHost`, `strconv.Quote`, and the texts of the errors of `os` and `encoding/json`. -/
structure Host where
  parseIP : Str → Bool
  lookupHost : Str → Bool
  quote : Str → Str
  readError : Str
  jsonError : List Char → Str
  parseIP_default : parseIP defaultBindAddress = true

def Host.resolves (host : Host) (address : Str) : Bool :=
  host.parseIP address || host.lookupHost address

/-- `Config.Validate`, with the configuration it leaves behind. -/
def Config.validate (host : Host) (c : Config) : Except Str Config :=
  let trimmed := trimSpace c.bindAddress
  let address := if trimmed = [] then defaultBindAddress else trimmed
  let port := if c.bindPort = 0 then defaultBindPort else c.bindPort
  if maxBindAddressLen < byteLength address then
    .error ("bind_address too long (".toList ++ Nat.toDigits 10 (byteLength address) ++
      " > 253)".toList)
  else if host.resolves address = false then
    .error ("bind_address ".toList ++ host.quote address ++
      " is not a valid IP or resolvable host".toList)
  else if port < minPort ∨ maxPort < port then
    .error ("bind_port ".toList ++ Json.intText port.toInt ++ " out of range 1-65535".toList)
  else .ok { c with bindAddress := address, bindPort := port }

/-! ## The text of a configuration -/

def TFTPConfig.fields : List (Json.Field TFTPConfig) :=
  [.bool "enabled".toList (·.enabled) ({ · with enabled := · }),
    .string "bind_address".toList (·.bindAddress) ({ · with bindAddress := · }),
    .int "bind_port".toList (·.bindPort) ({ · with bindPort := · }),
    .string "root".toList (·.root) ({ · with root := · })]

def DHCPConfig.fields : List (Json.Field DHCPConfig) :=
  [.bool "enabled".toList (·.enabled) ({ · with enabled := · }),
    .string "bind_address".toList (·.bindAddress) ({ · with bindAddress := · }),
    .int "bind_port".toList (·.bindPort) ({ · with bindPort := · }),
    .string "subnet".toList (·.subnet) ({ · with subnet := · }),
    .string "range_start".toList (·.rangeStart) ({ · with rangeStart := · }),
    .string "range_end".toList (·.rangeEnd) ({ · with rangeEnd := · }),
    .int "lease_seconds".toList (·.leaseSeconds) ({ · with leaseSeconds := · }),
    .string "gateway".toList (·.gateway) ({ · with gateway := · }),
    .string "dns_server".toList (·.dnsServer) ({ · with dnsServer := · }),
    .string "next_server".toList (·.nextServer) ({ · with nextServer := · }),
    .string "boot_file_uefi".toList (·.bootFileUEFI) ({ · with bootFileUEFI := · }),
    .string "boot_file_bios".toList (·.bootFileBIOS) ({ · with bootFileBIOS := · })]

def PXEConfig.fields : List (Json.Field PXEConfig) :=
  [.struct foldName "tftp".toList (·.tftp) ({ · with tftp := · }) TFTPConfig.fields,
    .struct foldName "dhcp".toList (·.dhcp) ({ · with dhcp := · }) DHCPConfig.fields]

def StorageConfig.fields : List (Json.Field StorageConfig) :=
  [.bool "enabled".toList (·.enabled) ({ · with enabled := · }),
    .string "root".toList (·.root) ({ · with root := · })]

def Config.fields : List (Json.Field Config) :=
  [.string "bind_address".toList (·.bindAddress) ({ · with bindAddress := · }),
    .int "bind_port".toList (·.bindPort) ({ · with bindPort := · }),
    .omitEmpty "log_dir".toList (·.logDir) ({ · with logDir := · }),
    .struct foldName "pxe".toList (·.pxe) ({ · with pxe := · }) PXEConfig.fields,
    .struct foldName "storage".toList (·.storage) ({ · with storage := · }) StorageConfig.fields]

def Config.marshal (c : Config) : List Char := Json.marshalStruct Config.fields c

/-- Into a configuration of zero values. -/
def unmarshalConfig (text : List Char) : Option Config :=
  Json.unmarshalStruct foldName Config.fields {} text

/-! ## Load and save -/

/-- `LoadConfig` -/
def loadConfig (host : Host) (path : Str) : FileData (List Char) → Config × Option Str
  | .missing => (defaultConfig, none)
  | .unreadable => (defaultConfig, some ("read config: ".toList ++ host.readError))
  | .data text =>
    match unmarshalConfig text with
    | none => (defaultConfig,
        some ("parse config ".toList ++ path ++ ": ".toList ++ host.jsonError text))
    | some cfg =>
      match cfg.validate host with
      | .error e => (defaultConfig, some ("invalid config ".toList ++ path ++ ": ".toList ++ e))
      | .ok cfg => (cfg, none)

/-- `Config.Save` up to `atomicWriteFile`: the data for it. -/
def Config.save (host : Host) (c : Config) : Except Str (List Char) :=
  match c.validate host with
  | .error e => .error ("refusing to save invalid config: ".toList ++ e)
  | .ok c => .ok c.marshal

/-! ## Runs -/

inductive ConfigEvent (κ : Type) where
  /-- The start of a server, up to the first configuration, with whether `os.ReadFile` and
  `os.Stat` get to the file. -/
  | startup (k : κ) (host : Host) (reads stats : Bool)
  | save (k : κ) (host : Host) (c : Config)
  /-- The next operation of a save. -/
  | go (k : κ) (a : Answer)
  | kill
  | powerLoss (choice : ℕ) (garbage : ℕ → List Char)

section

variable {κ : Type} [DecidableEq κ]

def Saves.file (s : Saves κ Unit) (reads : Bool) : FileData (List Char) :=
  if reads then
    match s.disk.read (.file ()) with
    | none => .missing
    | some text => .data text
  else .unreadable

def Saves.saveConfig (s : Saves κ Unit) (k : κ) (host : Host) (c : Config) : Saves κ Unit :=
  match c.save host with
  | .error _ => s
  | .ok data => s.step (.start k () data)

def Saves.configure (path : Str) (s : Saves κ Unit) : ConfigEvent κ → Saves κ Unit
  | .startup k host reads stats =>
    let cfg := (loadConfig host path (s.file reads)).1
    if stats ∧ s.disk.read (.file ()) = none then s.saveConfig k host cfg else s
  | .save k host c => s.saveConfig k host c
  | .go k a => s.step (.go k a)
  | .kill => s.step .kill
  | .powerLoss choice garbage => s.step (.powerLoss choice garbage)

end

/-! ## The check -/

/-- A configuration that the check leaves as it is. -/
structure Config.Accepted (host : Host) (c : Config) : Prop where
  trimmed : trimSpace c.bindAddress = c.bindAddress
  nonempty : c.bindAddress ≠ []
  length : byteLength c.bindAddress ≤ maxBindAddressLen
  resolves : host.resolves c.bindAddress = true
  low : minPort ≤ c.bindPort
  high : c.bindPort ≤ maxPort

theorem trimSpace_defaultBindAddress : trimSpace defaultBindAddress = defaultBindAddress :=
  trimSpace_eq_self (by decide +kernel)

theorem Config.accepted_of_validate {host : Host} {c c' : Config}
    (h : c.validate host = .ok c') : c'.Accepted host := by
  unfold Config.validate at h
  extract_lets trimmed address port at h
  have haddress : trimSpace address = address ∧ address ≠ [] := by
    by_cases hempty : trimmed = []
    · rw [show address = defaultBindAddress from if_pos hempty]
      exact ⟨trimSpace_defaultBindAddress, by decide⟩
    · rw [show address = trimmed from if_neg hempty]
      exact ⟨trimSpace_trimSpace c.bindAddress, hempty⟩
  split at h
  · cases h
  · rename_i hlen
    split at h
    · cases h
    · rename_i hres
      split at h
      · cases h
      · rename_i hport
        cases h
        rw [not_or, Int64.not_lt, Int64.not_lt] at hport
        exact ⟨haddress.1, haddress.2, Nat.le_of_not_lt hlen, by simpa using hres, hport.1, hport.2⟩

theorem Config.Accepted.validate {host : Host} {c : Config} (h : c.Accepted host) :
    c.validate host = .ok c := by
  have hport : c.bindPort ≠ 0 := by
    intro hzero
    exact absurd (hzero ▸ h.low) (by decide)
  have hrange : ¬(c.bindPort < minPort ∨ maxPort < c.bindPort) := by
    rw [not_or, Int64.not_lt, Int64.not_lt]
    exact ⟨h.low, h.high⟩
  have hres : ¬host.resolves c.bindAddress = false := by simp [h.resolves]
  rw [Config.validate]
  simp only [h.trimmed, if_neg h.nonempty, if_neg hport, if_neg (Nat.not_lt.mpr h.length),
    if_neg hres, if_neg hrange]

/-- The network is all that the check of an accepted configuration depends on. -/
theorem Config.Accepted.validate_other {host : Host} {c : Config} (h : c.Accepted host)
    (host' : Host) : c.validate host' = if host'.resolves c.bindAddress = true then .ok c
      else .error ("bind_address ".toList ++ host'.quote c.bindAddress ++
        " is not a valid IP or resolvable host".toList) := by
  by_cases hres : host'.resolves c.bindAddress = true
  · rw [if_pos hres]
    exact Config.Accepted.validate { h with resolves := hres }
  · rw [if_neg hres, Config.validate]
    simp only [h.trimmed, if_neg h.nonempty, if_neg (Nat.not_lt.mpr h.length),
      if_pos (Bool.eq_false_of_not_eq_true hres)]

theorem accepted_defaultConfig (host : Host) : defaultConfig.Accepted host where
  trimmed := trimSpace_defaultBindAddress
  nonempty := by decide
  length := by decide +kernel
  resolves := by
    rw [Host.resolves, show defaultConfig.bindAddress = defaultBindAddress from rfl,
      host.parseIP_default, Bool.true_or]
  low := by decide
  high := by decide

/-- Whatever the file holds. -/
theorem accepted_loadConfig (host : Host) (path : Str) (file : FileData (List Char)) :
    (loadConfig host path file).1.Accepted host := by
  cases file with
  | missing | unreadable => exact accepted_defaultConfig host
  | data text =>
    rw [loadConfig]
    split
    · exact accepted_defaultConfig host
    · split
      · exact accepted_defaultConfig host
      · rename_i hvalid
        exact Config.accepted_of_validate hvalid

/-! ## The text is read back -/

theorem copied_tftp (v : TFTPConfig) : Json.Copied v TFTPConfig.fields {} v :=
  .cons (Json.copies_bool ..) <| .cons (Json.copies_string ..) <| .cons (Json.copies_int ..) <|
    .cons (Json.copies_string ..) <| .nil v

theorem copied_dhcp (v : DHCPConfig) : Json.Copied v DHCPConfig.fields {} v :=
  .cons (Json.copies_bool ..) <| .cons (Json.copies_string ..) <| .cons (Json.copies_int ..) <|
    .cons (Json.copies_string ..) <| .cons (Json.copies_string ..) <|
    .cons (Json.copies_string ..) <| .cons (Json.copies_int ..) <|
    .cons (Json.copies_string ..) <| .cons (Json.copies_string ..) <|
    .cons (Json.copies_string ..) <| .cons (Json.copies_string ..) <|
    .cons (Json.copies_string ..) <| .nil v

theorem copied_storage (v : StorageConfig) : Json.Copied v StorageConfig.fields {} v :=
  .cons (Json.copies_bool ..) <| .cons (Json.copies_string ..) <| .nil v

theorem names_tftp : Json.Names foldName TFTPConfig.fields := by
  constructor <;> simp [TFTPConfig.fields, Json.Field.string, Json.Field.bool,
    Json.Field.int, foldName]

theorem names_dhcp : Json.Names foldName DHCPConfig.fields := by
  constructor <;> simp [DHCPConfig.fields, Json.Field.string, Json.Field.bool,
    Json.Field.int, foldName]

theorem names_storage : Json.Names foldName StorageConfig.fields := by
  constructor <;> simp [StorageConfig.fields, Json.Field.string, Json.Field.bool, foldName]

theorem names_pxe : Json.Names foldName PXEConfig.fields := by
  constructor <;> simp [PXEConfig.fields, Json.Field.struct, foldName]

theorem names_config : Json.Names foldName Config.fields := by
  constructor <;> simp [Config.fields, Json.Field.string, Json.Field.int, Json.Field.omitEmpty,
    Json.Field.struct, foldName]

theorem copied_pxe (v : PXEConfig) : Json.Copied v PXEConfig.fields {} v :=
  .cons (Json.copies_struct _ _ names_tftp (copied_tftp v.tftp)) <|
    .cons (Json.copies_struct _ _ names_dhcp (copied_dhcp v.dhcp)) <| .nil v

theorem copied_config (v : Config) : Json.Copied v Config.fields {} v :=
  .cons (Json.copies_string ..) <| .cons (Json.copies_int ..) <|
    .cons (Json.copies_omitEmpty _ _ _ rfl) <|
    .cons (Json.copies_struct _ _ names_pxe (copied_pxe v.pxe)) <|
    .cons (Json.copies_struct _ _ names_storage (copied_storage v.storage)) <| .nil v

theorem unmarshal_marshal_config (c : Config) : unmarshalConfig c.marshal = some c :=
  Json.unmarshalStruct_marshalStruct names_config (copied_config c)

/-- What was saved on a host is loaded on any host on which the address resolves. -/
theorem loadConfig_marshal {host host' : Host} {c : Config} (h : c.Accepted host) (path : Str) :
    loadConfig host' path (.data c.marshal) =
      if host'.resolves c.bindAddress = true then (c, none)
      else (defaultConfig, some ("invalid config ".toList ++ path ++ ": ".toList ++
        ("bind_address ".toList ++ host'.quote c.bindAddress ++
          " is not a valid IP or resolvable host".toList))) := by
  by_cases hres : host'.resolves c.bindAddress = true
  · rw [loadConfig, unmarshal_marshal_config, if_pos hres]
    dsimp only
    rw [h.validate_other host', if_pos hres]
  · rw [loadConfig, unmarshal_marshal_config, if_neg hres]
    dsimp only
    rw [h.validate_other host', if_neg hres]

/-! ## All runs -/

section

variable {κ : Type} [DecidableEq κ]

/-- The text of a configuration that was checked by one of the events. -/
def Configured (events : List (ConfigEvent κ)) (text : List Char) : Prop :=
  ∃ c', text = c'.marshal ∧
    (c' = defaultConfig ∨ ∃ k host c, ConfigEvent.save k host c ∈ events ∧ c.validate host = .ok c')

theorem Saves.Inv.saveConfig {P : Unit → List Char → Prop} {s : Saves κ Unit} (h : s.Inv P) (k : κ)
    {host : Host} {c : Config} (hP : ∀ c', c.validate host = .ok c' → P () c'.marshal) :
    (s.saveConfig k host c).Inv P := by
  unfold Saves.saveConfig
  unfold Config.save
  cases hvalid : c.validate host with
  | error e => exact h
  | ok c' => exact h.start (hP c' hvalid) k

theorem inv_configure (path : Str) (events : List (ConfigEvent κ)) :
    (run (Saves.configure path) (Saves.init κ Unit) events).Inv fun _ => Configured events := by
  refine inv_run (P := fun _ e => e ∈ events) ?_ (Saves.inv_init _)
    (along_of_forall _ _ fun e he => he)
  intro s e hs he
  cases e with
  | startup k host reads stats =>
    show Saves.Inv _ (if stats = true ∧ s.disk.read (.file ()) = none then _ else s)
    by_cases hmissing : stats = true ∧ s.disk.read (.file ()) = none
    · rw [if_pos hmissing]
      have hdefault : (loadConfig host path (s.file reads)).1 = defaultConfig := by
        rw [Saves.file, hmissing.2]
        cases reads <;> rfl
      refine hs.saveConfig k fun c' hvalid => ⟨c', rfl, .inl ?_⟩
      rw [hdefault] at hvalid
      exact Except.ok.inj (hvalid.symm.trans (accepted_defaultConfig host).validate)
    · rw [if_neg hmissing]
      exact hs
  | save k host c => exact hs.saveConfig k fun c' hvalid => ⟨c', rfl, .inr ⟨k, host, c, he, hvalid⟩⟩
  | go k a => exact hs.step (.go k a) fun _ _ _ heq => (by cases heq)
  | kill => exact hs.step .kill fun _ _ _ heq => (by cases heq)
  | powerLoss choice garbage =>
    exact hs.step (.powerLoss choice garbage) fun _ _ _ heq => (by cases heq)

/-- Starts and saves of any number of processes, with operations that fail, processes that
end and power that is lost at any moment: the configuration that `LoadConfig` returns passes
the check unchanged.  If the file can be read, it is the default one without an error, or one
that a save had checked, unless its address cannot be resolved now, which is then the error
beside the defaults. -/
theorem loadConfig_configured (path : Str) (events : List (ConfigEvent κ)) (host : Host)
    (reads : Bool) :
    let loaded := loadConfig host path
      ((run (Saves.configure path) (Saves.init κ Unit) events).file reads)
    loaded.1.validate host = .ok loaded.1 ∧
      ((reads = false ∧
          loaded = (defaultConfig, some ("read config: ".toList ++ host.readError))) ∨
        reads = true ∧ (loaded = (defaultConfig, none) ∨
          ∃ k saver c c', ConfigEvent.save k saver c ∈ events ∧ c.validate saver = .ok c' ∧
            loaded = if host.resolves c'.bindAddress = true then (c', none)
              else (defaultConfig, some ("invalid config ".toList ++ path ++ ": ".toList ++
                ("bind_address ".toList ++ host.quote c'.bindAddress ++
                  " is not a valid IP or resolvable host".toList))))) := by
  intro loaded
  refine ⟨(accepted_loadConfig host path _).validate, ?_⟩
  have hinv := inv_configure path events
  generalize hs : run (Saves.configure path) (Saves.init κ Unit) events = s at hinv
  have hloaded : loaded = loadConfig host path (s.file reads) := by rw [← hs]
  cases reads with
  | false => exact .inl ⟨rfl, hloaded⟩
  | true =>
    refine .inr ⟨rfl, ?_⟩
    rw [hloaded, Saves.file, if_pos rfl]
    cases hread : s.disk.read (.file ()) with
    | none => exact .inl rfl
    | some text =>
      obtain ⟨c', rfl, hdefault | ⟨k, saver, c, hmem, hvalid⟩⟩ := (hinv.disk.settled ()).read hread
      · have haccepted := accepted_defaultConfig host
        rw [hdefault]
        exact .inl ((loadConfig_marshal haccepted path).trans (if_pos haccepted.resolves))
      · refine .inr ⟨k, saver, c, c', hmem, hvalid, ?_⟩
        exact loadConfig_marshal (Config.accepted_of_validate hvalid) path

end

end Server
end MkyBoot
