import MkyBoot.Go.Escape
import MkyBoot.Server.Bookkeeping
import MkyBoot.Server.Frame

/-!
# Releasing an assignment

An assignment is made for the client id of a JSON body and released for the id in a path.
The body may have any text that is not empty; the path is cleaned by the router, which takes
`.` and `..` out of it, and its handler refuses an id with a slash.  `assigned_released_iff`
says for which ids that were assigned the release works, whatever characters the client
leaves unescaped.
-/

namespace MkyBoot
namespace Server

open Go

/-! ## Clean paths -/

theorem render_concat (names : List Str) (e : Str) :
    Filepath.render .unix (names ++ [e]) = Filepath.render .unix names ++ '/' :: e := by
  rw [Filepath.render_append, Filepath.render_cons]
  exact congrArg (fun t => _ ++ '/' :: t) (List.append_nil e)

theorem getLast?_render {names : List Str} (hne : names ≠ [])
    (h : ∀ n ∈ names, Filepath.IsName .unix n) :
    (Filepath.render .unix names).getLast? ≠ some '/' := by
  obtain ⟨init, last, rfl⟩ := (List.eq_nil_or_concat' names).resolve_left hne
  obtain ⟨hlast, -, -, hsep⟩ := h last (by simp)
  rw [render_concat, List.getLast?_append_of_ne_nil _ (List.cons_ne_nil _ _),
    List.getLast?_cons_of_ne_nil hlast]
  intro hslash
  exact absurd (hsep '/' (List.mem_of_getLast? hslash)) (by decide)

/-- A path of names is clean. -/
theorem cleanPath_render {names : List Str} (hne : names ≠ [])
    (h : ∀ n ∈ names, Filepath.IsName .unix n) :
    cleanPath (Filepath.render .unix names) = Filepath.render .unix names := by
  obtain ⟨e, rest, rfl⟩ := List.exists_cons_of_ne_nil hne
  have hstack : (Filepath.elements .unix (Filepath.render .unix (e :: rest))).foldl
      Filepath.cleanStep [] = (e :: rest).reverse := by
    rw [Filepath.elements_render h, List.foldl_cons]
    exact (Filepath.foldl_cleanStep_names h []).trans (List.append_nil _)
  have hclean : Filepath.clean .unix (Filepath.render .unix (e :: rest)) =
      Filepath.render .unix (e :: rest) := by
    rw [Filepath.clean, hstack, List.reverse_reverse]
  have hhead : (Filepath.render .unix (e :: rest)).head? = some '/' := rfl
  rw [cleanPath, if_pos hhead, hclean, if_neg fun hslash => getLast?_render hne h hslash.1]

theorem segments_render {Body : Type} (codec : Codec Body) {names : List Str}
    (h : ∀ n ∈ names, Filepath.IsName .unix n) :
    segments codec (Filepath.render .unix names) = names.map codec.unescape := by
  rw [segments, Filepath.elements_render h]
  rfl

/-! ## Requests for assignments -/

/-- The path of a request is what its escaped path stands for. -/
def Request.Parsed {Body : Type} (r : Request Body) : Prop :=
  Escape.unescape r.escapedPath = some (bytes r.path)

def assignNames : List Str := chars ["api", "storage", "assign"]

section

variable {Body Text : Type} {sys : Filepath.Sys} (codec : Codec Body) (json : Json Text)
  (boot : World Text sys → Visit Body → Response × World Text sys)

/-- A request that assigns the image to the client. -/
structure Assigns (v : Visit Body) (id image : Str) : Prop where
  method : v.method = .post
  escapedPath : v.escapedPath = "/api/storage/assign".toList
  path : v.path = "/api/storage/assign".toList
  body : codec.assign v.body = .ok (id, image)

/-- A request that releases the client, with its id escaped up to the characters that are
kept. -/
structure Releases (keep : Char → Bool) (v : Visit Body) (id : Str) : Prop where
  method : v.method = .delete
  escapedPath : v.escapedPath = "/api/storage/assign/".toList ++ Escape.escape keep id
  parsed : v.toRequest.Parsed

/-- The request is answered with 200, and the assignment of the client is gone and nothing
else. -/
def Released (w : World Text sys) (v : Visit Body) (id : Str) : Prop :=
  serve codec json w boot v =
    (.json 200,
      { w with storage := { w.storage with assignments := w.storage.assignments.erase id } })

variable {codec json boot} {w : World Text sys} {v : Visit Body} {keep : Char → Bool}
  {id image : Str}

theorem Releases.path_eq (h : Releases keep v id) (hpercent : keep '%' = false) :
    v.path = "/api/storage/assign/".toList ++ id := by
  have hparsed : Escape.unescape v.escapedPath = some (bytes v.path) := h.parsed
  rw [h.escapedPath, Escape.unescape_append (by decide), Escape.unescape_escape hpercent,
    Option.map_some, Option.some_inj, ← bytes_append] at hparsed
  exact (bytes_injective hparsed).symm

/-- A path is served by the handler chosen for its names if it is clean, and redirected if
not. -/
theorem target_of_names {r : Request Body} {names : List Str} {route : Route}
    (hmethod : r.method ≠ .connect) (hpath : cleanPath r.escapedPath = Filepath.render .unix names)
    (hne : names ≠ []) (h : ∀ n ∈ names, Filepath.IsName .unix n)
    (hchoose : choose (names.map codec.unescape) = .handler route) :
    target codec r = if Filepath.render .unix names ≠ r.escapedPath
      then .redirect (Filepath.render .unix names) else .route route := by
  have hhead : (Filepath.render .unix names).head? = some '/' := by
    obtain ⟨e, rest, rfl⟩ := List.exists_cons_of_ne_nil hne
    rfl
  rw [target, if_neg hmethod, hpath, segments_render codec h, hchoose]
  simp only [hhead, ne_eq, not_true_eq_false, if_false]

theorem target_of_render {r : Request Body} {names : List Str} {route : Route}
    (hmethod : r.method ≠ .connect) (hpath : r.escapedPath = Filepath.render .unix names)
    (hne : names ≠ []) (h : ∀ n ∈ names, Filepath.IsName .unix n)
    (hchoose : choose (names.map codec.unescape) = .handler route) :
    target codec r = .route route := by
  have hclean : cleanPath r.escapedPath = Filepath.render .unix names := by
    rw [hpath, cleanPath_render hne h]
  rw [target_of_names hmethod hclean hne h hchoose, if_neg (not_not.mpr hpath.symm)]

theorem assignNames_isName : ∀ n ∈ assignNames, Filepath.IsName .unix n := by decide

theorem assignNames_unescape (hplain : ∀ seg, '%' ∉ seg → codec.unescape seg = seg) :
    assignNames.map codec.unescape = assignNames := by
  have hall : ∀ n ∈ assignNames, '%' ∉ n := by decide
  exact List.map_congr_left (fun n hn => hplain n (hall n hn)) |>.trans (List.map_id _)

theorem choose_item (x : Str) : choose (assignNames ++ [x]) = .handler .storageAssign := by
  simp +decide [choose, exactRoutes, treeRoutes, chars, assignNames]

theorem target_assign (hplain : ∀ seg, '%' ∉ seg → codec.unescape seg = seg)
    (h : Assigns codec v id image) : target codec v.toRequest = .route .storageAssign := by
  have hpath : v.escapedPath = Filepath.render .unix assignNames := by
    rw [h.escapedPath]
    decide
  refine target_of_render ?_ hpath (List.cons_ne_nil _ _) assignNames_isName ?_
  · rw [h.method]
    exact Method.noConfusion
  · rw [assignNames_unescape hplain]
    decide

theorem Releases.escapedPath_eq (h : Releases keep v id) :
    v.escapedPath = Filepath.render .unix (assignNames ++ [Escape.escape keep id]) := by
  have hfront : "/api/storage/assign/".toList = Filepath.render .unix assignNames ++ ['/'] := by
    decide
  rw [h.escapedPath, hfront, render_concat, List.append_assoc]
  rfl

theorem target_release (hplain : ∀ seg, '%' ∉ seg → codec.unescape seg = seg)
    (h : Releases keep v id) (hname : Filepath.IsName .unix (Escape.escape keep id)) :
    target codec v.toRequest = .route .storageAssign := by
  have hne : assignNames ++ [Escape.escape keep id] ≠ [] :=
    List.append_ne_nil_of_right_ne_nil _ (List.cons_ne_nil _ _)
  refine target_of_render ?_ h.escapedPath_eq hne ?_ ?_
  · rw [h.method]
    exact Method.noConfusion
  · intro n hn
    obtain hn | hn := List.mem_append.mp hn
    · exact assignNames_isName n hn
    · exact List.mem_singleton.mp hn ▸ hname
  · rw [List.map_append, assignNames_unescape hplain]
    exact choose_item _

/-- An id of dots that are kept is taken out of the path. -/
theorem target_dots (hplain : ∀ seg, '%' ∉ seg → codec.unescape seg = seg) (h : Releases keep v id)
    (hdots : Escape.escape keep id = ".".toList ∨ Escape.escape keep id = "..".toList) :
    ∃ path, target codec v.toRequest = .redirect path := by
  have hmethod : v.method ≠ .connect := by
    rw [h.method]
    exact Method.noConfusion
  have hunescape := assignNames_unescape hplain
  -- what is left of the path are the first names of it
  have hredirect (names : List Str) (route : Route)
      (hclean : cleanPath v.escapedPath = Filepath.render .unix names)
      (hdiff : Filepath.render .unix names ≠ v.escapedPath) (hne : names ≠ [])
      (hnames : names <+: assignNames) (hchoose : choose names = .handler route) :
      ∃ path, target codec v.toRequest = .redirect path := by
    have hmap : names.map codec.unescape = names := by
      rw [List.prefix_iff_eq_take.mp hnames, List.map_take, hunescape]
    refine ⟨_, (target_of_names hmethod hclean hne ?_ (hmap.symm ▸ hchoose)).trans (if_pos hdiff)⟩
    exact fun n hn => assignNames_isName n (hnames.subset hn)
  obtain hdots | hdots := hdots
  · exact hredirect assignNames .storageAssign (by rw [h.escapedPath, hdots]; decide)
      (by rw [h.escapedPath, hdots]; decide) (by decide) (by decide) (by decide)
  · exact hredirect (chars ["api", "storage"]) .root (by rw [h.escapedPath, hdots]; decide)
      (by rw [h.escapedPath, hdots]; decide) (by decide) (by decide) (by decide)

/-! ## Making and releasing an assignment -/

theorem serve_of_storageAssign (h : target codec v.toRequest = .route .storageAssign) :
    serve codec json w boot v = handleStorageAssign codec w v := by
  rw [serve, h]

/-- An assignment that was made is there. -/
theorem serve_assign (hplain : ∀ seg, '%' ∉ seg → codec.unescape seg = seg)
    (h : Assigns codec v id image) (hmade : (serve codec json w boot v).1 = .json 201) :
    id ≠ [] ∧ ∃ a, (serve codec json w boot v).2.storage.assignments[id]? = some a := by
  rw [serve_of_storageAssign (target_assign hplain h), handleStorageAssign, h.method, h.path,
    h.body] at hmade ⊢
  cases hauth : requireAdmin codec w v.toRequest with
  | false =>
    rw [hauth] at hmade
    cases hmade
  | true =>
    rw [hauth] at hmade
    simp only [Bool.not_true, Bool.false_eq_true, if_false, ne_eq, not_true_eq_false] at hmade ⊢
    cases hassign : assignClient sys w.storage id image v.now with
    | error e =>
      rw [hassign] at hmade
      cases hmade
    | ok result =>
      have hok : assignClient sys w.storage id image v.now = .ok (result.1, result.2) := hassign
      obtain ⟨-, -, hs⟩ := assignClient_ok hok
      refine ⟨((assignClient_iff _ _ _ _).mp ⟨result, hassign⟩).1.1, result.1, ?_⟩
      show result.2.assignments[id]? = some result.1
      rw [hs]
      exact Std.ExtTreeMap.getElem?_insert_self

theorem serve_release (hplain : ∀ seg, '%' ∉ seg → codec.unescape seg = seg)
    (hpercent : keep '%' = false) (h : Releases keep v id)
    (hname : Filepath.IsName .unix (Escape.escape keep id))
    (hauth : requireAdmin codec w v.toRequest = true) (hne : id ≠ [])
    {a : ClientAssignment} (ha : w.storage.assignments[id]? = some a) :
    Released codec json boot w v id ↔ '/' ∉ id := by
  have hfront :
      "/api/storage/assign/".toList.isPrefixOf ("/api/storage/assign/".toList ++ id) = true :=
    List.isPrefixOf_iff_prefix.mpr (List.prefix_append _ _)
  have hid :
      trimLeading "/api/storage/assign/".toList ("/api/storage/assign/".toList ++ id) = id := by
    rw [trimLeading, if_pos hfront, List.drop_left]
  have hrelease : releaseAssignment w.storage id =
      .ok { w.storage with assignments := w.storage.assignments.erase id } := by
    rw [releaseAssignment, ha, if_neg (Option.some_ne_none a)]
  rw [Released, serve_of_storageAssign (target_release hplain h hname), handleStorageAssign,
    h.method, h.path_eq hpercent, hauth]
  simp only [Bool.not_true, Bool.false_eq_true, if_false, hfront, hid, hne, false_or, hrelease]
  by_cases hslash : '/' ∈ id
  · rw [if_pos hslash]
    refine iff_of_false (fun heq => ?_) (not_not.mpr hslash)
    cases congrArg Prod.fst heq
  · rw [if_neg hslash]
    exact iff_of_true rfl hslash

/-- An escaped id is a name in the path unless it is empty or dots. -/
theorem isName_escape (hslash : keep '/' = false) (hempty : Escape.escape keep id ≠ [])
    (hdot : Escape.escape keep id ≠ ".".toList) (hdots : Escape.escape keep id ≠ "..".toList) :
    Filepath.IsName .unix (Escape.escape keep id) := by
  refine ⟨hempty, hdot, hdots, fun c hc => ?_⟩
  obtain ⟨hkeep, -⟩ | rfl | hhex := Escape.mem_escape hc
  · rw [Filepath.OS.isSep, beq_eq_false_iff_ne]
    rintro rfl
    rw [hslash] at hkeep
    cases hkeep
  · decide
  · have hall : ∀ d ∈ "0123456789ABCDEF".toList, Filepath.OS.isSep .unix d = false := by decide
    exact hall c hhex

/-- An assignment that was made is released exactly when its id has no slash and is not a
text of one or two dots that are kept in the path. -/
theorem assigned_released_iff {Body Text : Type} {sys : Filepath.Sys} {codec : Codec Body}
    {json : Json Text} {boot : World Text sys → Visit Body → Response × World Text sys}
    {w : World Text sys} {made v : Visit Body} {keep : Char → Bool} {id image : Str}
    (hplain : ∀ seg, '%' ∉ seg → codec.unescape seg = seg)
    (hslash : keep '/' = false) (hpercent : keep '%' = false)
    (hassigns : Assigns codec made id image) (hmade : (serve codec json w boot made).1 = .json 201)
    (hreleases : Releases keep v id)
    (hauth : requireAdmin codec (serve codec json w boot made).2 v.toRequest = true) :
    Released codec json boot (serve codec json w boot made).2 v id ↔
      '/' ∉ id ∧ (keep '.' = true → id ≠ ".".toList ∧ id ≠ "..".toList) := by
  obtain ⟨hne, a, ha⟩ := serve_assign hplain hassigns hmade
  have hdot : Escape.escape keep id = ".".toList ↔ id = ".".toList ∧ keep '.' = true := by
    rw [Escape.escape_eq_iff (by decide)]
    simp
  have hdots : Escape.escape keep id = "..".toList ↔ id = "..".toList ∧ keep '.' = true := by
    rw [Escape.escape_eq_iff (by decide)]
    simp
  have hcond : (keep '.' = true → id ≠ ".".toList ∧ id ≠ "..".toList) ↔
      ¬ (Escape.escape keep id = ".".toList ∨ Escape.escape keep id = "..".toList) := by
    rw [hdot, hdots]
    tauto
  rw [hcond]
  by_cases hredirect : Escape.escape keep id = ".".toList ∨ Escape.escape keep id = "..".toList
  · refine iff_of_false (fun h => ?_) (fun h => h.2 hredirect)
    obtain ⟨path, hpath⟩ := target_dots hplain hreleases hredirect
    rw [Released, serve, hpath] at h
    cases congrArg Prod.fst h
  · rw [and_iff_left hredirect]
    rw [not_or] at hredirect
    have hempty : Escape.escape keep id ≠ [] := by
      intro hnil
      exact hne ((Escape.escape_eq_iff List.not_mem_nil).mp hnil).1
    have hname := isName_escape hslash hempty hredirect.1 hredirect.2
    exact serve_release hplain hpercent hreleases hname hauth hne ha

end

/-! A server with one image, and clients of two kinds. -/

def pairCodec : Codec (Str × Str) where
  hashToken := List.reverse
  unescape := id
  register := .ok
  heartbeat := fun body => .ok body.1
  session := fun _ => .error "invalid JSON".toList
  assign := .ok

def imageServer : World Doc unixSys :=
  { labServer with storage := storageStep unixSys (newStorage dataImages) registerBase }

def noScript (w : World Doc unixSys) (_ : Visit (Str × Str)) : Response × World Doc unixSys :=
  (notFound, w)

/-- The characters `url.PathEscape` keeps. -/
def pathKeeps (c : Char) : Bool := c.isAlphanum || c ∈ "-_.~$&+=:@".toList

def assignVisit (id : String) : Visit (Str × Str) :=
  { method := .post, escapedPath := "/api/storage/assign".toList
    path := "/api/storage/assign".toList, api := [], authorization := "Bearer a3f0".toList
    body := (id.toList, "win".toList), now := 0, tok := none, fault := none, lockFault := none }

def releaseVisit (id : String) : Visit (Str × Str) :=
  { method := .delete
    escapedPath := "/api/storage/assign/".toList ++ Escape.escape pathKeeps id.toList
    path := "/api/storage/assign/".toList ++ id.toList, api := []
    authorization := "Bearer a3f0".toList, body := ([], []), now := 0, tok := none, fault := none
    lockFault := none }

def assigned (id : String) : World Doc unixSys :=
  (serve pairCodec plainJson imageServer noScript (assignVisit id)).2

theorem plain_client_released :
    Released pairCodec plainJson noScript (assigned "pc 1") (releaseVisit "pc 1")
      "pc 1".toList := by
  have hassigns : Assigns pairCodec (assignVisit "pc 1") "pc 1".toList "win".toList :=
    ⟨rfl, rfl, rfl, rfl⟩
  have hreleases : Releases pathKeeps (releaseVisit "pc 1") "pc 1".toList :=
    ⟨rfl, rfl, by rw [Request.Parsed]; decide +kernel⟩
  exact (assigned_released_iff (fun _ _ => rfl) (by decide) (by decide) hassigns
    (by decide +kernel) hreleases (by decide +kernel)).mpr (by decide +kernel)

/-- An id with a slash is assigned, and the release of it is not found. -/
theorem slash_client_not_released :
    (serve pairCodec plainJson imageServer noScript (assignVisit "lab/pc1")).1 = .json 201 ∧
      (releaseVisit "lab/pc1").escapedPath = "/api/storage/assign/lab%2Fpc1".toList ∧
      (serve pairCodec plainJson (assigned "lab/pc1") noScript (releaseVisit "lab/pc1")).1 =
        notFound ∧
      ¬ Released pairCodec plainJson noScript (assigned "lab/pc1") (releaseVisit "lab/pc1")
        "lab/pc1".toList := by
  have hanswer : (serve pairCodec plainJson (assigned "lab/pc1") noScript
      (releaseVisit "lab/pc1")).1 = notFound := by decide +kernel
  refine ⟨by decide +kernel, by decide +kernel, hanswer, fun h => ?_⟩
  rw [Released] at h
  rw [h] at hanswer
  cases hanswer

end Server
end MkyBoot
