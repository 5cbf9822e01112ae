import AccessRules.Proofs.Construction
import AccessRules.Proofs.Handle.Suffix
import AccessRules.Proofs.Path.Readback

/-! Look-ups by what other look-ups find. Each level writes the text of the level before between `$(`
and `)`, behind the path of a collection and in front of a field. Since neither an accepted path
nor an id that is known can be taken for a look-up, and the marks around an id do not stand in the
path of a collection, the levels are read back from the text of the last one, and so is the id that
the first of them starts from (`LookupChain.text_eq_text_iff`). -/

namespace AccessRules

/-- The step from a document to its data. -/
def Step.data {model : HandleType} : Step (.resource model) model :=
  .member ⟨"data", "data", model⟩ (.head _)

/-- The key that a step reads, for the steps that reach a field and do no more. -/
def Step.key? {t u : HandleType} : Step t u → Option String
  | .field name => some name
  | .member m _ => some m.key
  | _ => none

/-- A look-up in a collection, and the step from the data of what it finds to a field. -/
structure Lookup where
  {model type : HandleType}
  collection : Collection model
  access : Step model type
  field : String
  key?_eq : access.key? = some field

/-- The field of the document with that id. -/
def Lookup.find (l : Lookup) (id : DocumentId) : Handle l.type :=
  ((l.collection.get id).step .data).step l.access

/-- The path of the collection of a look-up and its field. -/
def Lookup.level (l : Lookup) : String × String :=
  (l.collection.path, l.field)

/-- One or more look-ups. All but the first one take what the one before found for an id. -/
inductive LookupChain where
  | first (id : DocumentId) (l : Lookup)
  | next (c : LookupChain) (l : Lookup)

namespace LookupChain

/-- The path to what the last look-up finds. -/
def path : LookupChain → Path
  | .first id l => (l.find id).path
  | .next c l => (l.find (.path c.path)).path

/-- The id that the first look-up takes. -/
def start : LookupChain → DocumentId
  | .first id _ => id
  | .next c _ => c.start

/-- The levels of a chain, the last one first. -/
def levels : LookupChain → List (String × String)
  | .first _ l => [l.level]
  | .next c l => l.level :: c.levels

end LookupChain

/-! ## The parts of a level -/

/-- A character that no mark around an id is made of. -/
def Unmarked (c : Char) : Prop := c ≠ '$' ∧ c ≠ '(' ∧ c ≠ ')'

instance : DecidablePred Unmarked := fun c =>
  inferInstanceAs (Decidable (c ≠ '$' ∧ c ≠ '(' ∧ c ≠ ')'))

/-- A path, or a literal without slashes and marks. -/
def DocumentId.Apart : DocumentId → Prop
  | .literal id => FreeText (fun c => c ≠ '/' ∧ Unmarked c) id
  | .path _ => True

theorem DocumentId.apart_path (p : Path) : (path p).Apart := trivial

/-- A look-up in a collection without marks, and a field that is an identifier. -/
structure Lookup.Proper (l : Lookup) : Prop where
  unmarked : FreeText Unmarked l.collection.path
  isIdent : Path.isIdent l.field.toList

theorem Path.fieldSuffix_of_isIdent (h : isIdent name.toList) : fieldSuffix name = "." ++ name := by
  have hindex := isIndexName_of_isIdent h
  rw [String.ofList_toList] at hindex
  rw [fieldSuffix, hindex, if_neg Bool.false_ne_true]

theorem Path.notMem_of_isIdent (h : isIdent name) (hc : isIdentRest c = false) : c ∉ name := by
  intro hm
  rw [isIdentRest_of_mem h hm] at hc
  cases hc

theorem Step.suffix_data {model : HandleType} :
    (data : Step (.resource model) model).suffix = ".data" := by
  have hsuffix : Path.fieldSuffix "data" = ".data" := by decide
  exact hsuffix

theorem Step.suffix_of_key? {t u : HandleType} {s : Step t u} (h : s.key? = some name) :
    s.suffix = Path.fieldSuffix name := by
  cases s <;> cases h <;> rfl

theorem Lookup.Proper.toList_text_find {l : Lookup} (h : l.Proper) (id : DocumentId) :
    (l.find id).path.text.toList = "get(/databases/$(database)/documents/".toList ++
      (l.collection.path.toList ++ '/' :: id.render.toList) ++ ").data".toList ++
        '.' :: l.field.toList := by
  rw [find, Handle.text_step, Handle.text_step, Step.suffix_data, Step.suffix_of_key? l.key?_eq,
    Path.fieldSuffix_of_isIdent h.isIdent, Collection.get, Handle.ofText]
  simp

theorem DocumentId.toList_render_path (p : Path) :
    (DocumentId.path p).render.toList = '$' :: '(' :: (p.text.toList ++ [')']) := by
  simp [render]

theorem DocumentId.mem_of_path (c : String) (p : Path) :
    '$' ∈ c.toList ++ '/' :: (path p).render.toList := by
  simp [toList_render_path]

theorem DocumentId.notMem_of_literal {c id : String} (hc : FreeText Unmarked c)
    (h : (literal id).Apart) : '$' ∉ c.toList ++ '/' :: (literal id).render.toList := by
  intro hm
  rcases List.mem_append.mp hm with hm | hm
  · exact (hc _ hm).1 rfl
  · rcases List.mem_cons.mp hm with hslash | hm
    · cases hslash
    · exact (h _ hm).2.1 rfl

/-- Behind the path of a collection an id is told apart from it: one that is a path starts at the first
dollar sign, and in front of any other one the last slash stands. -/
theorem DocumentId.Apart.append_inj {c c' : String} {id id' : DocumentId} (hc : FreeText Unmarked c)
    (hc' : FreeText Unmarked c') (h : id.Apart) (h' : id'.Apart)
    (heq : c.toList ++ '/' :: id.render.toList = c'.toList ++ '/' :: id'.render.toList) :
    c = c' ∧ id = id' := by
  cases id with
  | literal id =>
    cases id' with
    | literal id' =>
      obtain ⟨hpath, hid⟩ := cut_last_inj (fun hm => (h _ hm).1 rfl) (fun hm => (h' _ hm).1 rfl) heq
      exact ⟨String.toList_inj.mp hpath, congrArg literal (String.toList_inj.mp hid)⟩
    | path p' => exact absurd (heq ▸ mem_of_path c' p') (notMem_of_literal hc h)
  | path p =>
    cases id' with
    | literal id' => exact absurd (heq ▸ mem_of_path c p) (notMem_of_literal hc' h')
    | path p' =>
      have hdollar : ∀ {c : String}, FreeText Unmarked c → '$' ∉ c.toList ++ ['/'] := by
        intro c hc hm
        rcases List.mem_append.mp hm with hm | hm
        · exact (hc _ hm).1 rfl
        · cases List.mem_singleton.mp hm
      rw [toList_render_path, toList_render_path, List.append_cons, List.append_cons c'.toList] at heq
      obtain ⟨hpath, hid⟩ := cut_inj (hdollar hc) (hdollar hc') heq
      have htext := List.append_cancel_right (List.cons.inj hid).2
      refine ⟨String.toList_inj.mp (List.append_cancel_right hpath), ?_⟩
      exact congrArg (path ⟨·⟩) (String.toList_inj.mp htext)

/-- A look-up is read back from the text of what it finds. -/
theorem Lookup.Proper.find_inj {l l' : Lookup} {id id' : DocumentId} (h : l.Proper) (h' : l'.Proper)
    (hid : id.Apart) (hid' : id'.Apart)
    (heq : (l.find id).path.text = (l'.find id').path.text) : l.level = l'.level ∧ id = id' := by
  have htext := congrArg String.toList heq
  rw [h.toList_text_find, h'.toList_text_find] at htext
  have hpoint : ∀ {l : Lookup}, l.Proper → '.' ∉ l.field.toList :=
    fun h => Path.notMem_of_isIdent h.isIdent rfl
  obtain ⟨hdocument, hfield⟩ := cut_last_inj (hpoint h) (hpoint h') htext
  obtain ⟨hpath, rfl⟩ := hid.append_inj h.unmarked h'.unmarked hid'
    (List.append_cancel_left (List.append_cancel_right hdocument))
  refine ⟨?_, rfl⟩
  rw [level, level, hpath, String.toList_inj.mp hfield]

/-- What a look-up finds depends on the path of its collection, its field and the id. -/
theorem Lookup.Proper.find_congr {l l' : Lookup} (h : l.Proper) (h' : l'.Proper)
    (hlevel : l.level = l'.level) (id : DocumentId) : (l.find id).path = (l'.find id).path := by
  obtain ⟨hpath, hfield⟩ := Prod.mk.inj hlevel
  refine congrArg Path.mk (String.toList_inj.mp ?_)
  rw [h.toList_text_find, h'.toList_text_find, hpath, hfield]

/-- The path to what a look-up finds is not accepted. -/
theorem Lookup.Proper.not_accepted_find {l : Lookup} (h : l.Proper) (id : DocumentId) :
    ¬(l.find id).path.Accepted := by
  intro hp
  -- a slash stands in front of the path of the collection
  have hslash : '/' ∈ (l.find id).path.text.toList := by simp [h.toList_text_find]
  exact hp.notMem rfl (by decide) hslash

/-! ## Chains -/

/-- What a chain of look-ups may start from: a literal that is not empty, without slashes and marks, or
an accepted path. -/
inductive DocumentId.Start : DocumentId → Prop
  | literal {id : String} (hne : id ≠ "") (h : FreeText (fun c => c ≠ '/' ∧ Unmarked c) id) :
      Start (.literal id)
  | path (h : p.Accepted) : Start (.path p)

theorem DocumentId.Start.apart {id : DocumentId} (h : id.Start) : id.Apart := by
  cases h with
  | literal _ h => exact h
  | path => trivial

namespace LookupChain

open DocumentId

/-- A chain of proper look-ups from an id that it may start from. -/
inductive Proper : LookupChain → Prop
  | first {id : DocumentId} (hid : id.Start) (hl : l.Proper) : Proper (.first id l)
  | next (hc : Proper c) (hl : l.Proper) : Proper (.next c l)

theorem levels_ne_nil (c : LookupChain) : c.levels ≠ [] := by
  cases c <;> exact List.cons_ne_nil _ _

/-- A chain does not start from what another one finds. -/
theorem Proper.ne_path {c : LookupChain} {id : DocumentId} (hc : c.Proper) (hid : id.Start) :
    id ≠ .path c.path := by
  rintro rfl
  cases hid with
  | path hp =>
    cases hc with
    | first _ hl | next _ hl => exact hl.not_accepted_find _ hp

theorem Proper.eq_of_text_eq {c d : LookupChain} (hc : c.Proper) (hd : d.Proper)
    (h : c.path.text = d.path.text) : c.start = d.start ∧ c.levels = d.levels := by
  -- the last levels are taken off both chains; neither can end there while the other one goes on
  induction hc generalizing d with
  | first hid hl =>
    cases hd with
    | first hid' hl' =>
      obtain ⟨hlevel, rfl⟩ := hl.find_inj hl' hid.apart hid'.apart h
      exact ⟨rfl, congrArg ([·]) hlevel⟩
    | next hd hl' => exact absurd (hl.find_inj hl' hid.apart (apart_path _) h).2 (hd.ne_path hid)
  | next hc hl ih =>
    cases hd with
    | first hid' hl' =>
      exact absurd (hl.find_inj hl' (apart_path _) hid'.apart h).2.symm (hc.ne_path hid')
    | next hd hl' =>
      obtain ⟨hlevel, hid⟩ := hl.find_inj hl' (apart_path _) (apart_path _) h
      obtain ⟨hstart, hlevels⟩ := ih hd (congrArg Path.text (DocumentId.path.inj hid))
      exact ⟨hstart, List.cons_eq_cons.mpr ⟨hlevel, hlevels⟩⟩

theorem Proper.path_congr {c d : LookupChain} (hc : c.Proper) (hd : d.Proper)
    (hstart : c.start = d.start) (hlevels : c.levels = d.levels) : c.path = d.path := by
  induction hc generalizing d with
  | first hid hl =>
    cases hd with
    | first hid' hl' =>
      obtain ⟨hlevel, -⟩ := List.cons_eq_cons.mp hlevels
      simp only [start] at hstart
      rw [path, path, hstart, hl.find_congr hl' hlevel]
    | @next d _ hd hl' =>
      obtain ⟨-, hrest⟩ := List.cons_eq_cons.mp hlevels
      exact absurd hrest.symm d.levels_ne_nil
  | @next c _ hc hl ih =>
    cases hd with
    | first hid' hl' =>
      obtain ⟨-, hrest⟩ := List.cons_eq_cons.mp hlevels
      exact absurd hrest c.levels_ne_nil
    | next hd hl' =>
      obtain ⟨hlevel, hrest⟩ := List.cons_eq_cons.mp hlevels
      rw [path, path, hl.find_congr hl' hlevel, ih hd hstart hrest]

/-- Two chains of look-ups have one text just if they start from the same id and look up the same fields
in the same collections at every level. -/
theorem text_eq_text_iff (c d : LookupChain) (hc : c.Proper) (hd : d.Proper) :
    c.path.text = d.path.text ↔ c.start = d.start ∧ c.levels = d.levels :=
  ⟨hc.eq_of_text_eq hd, fun h => congrArg Path.text (hc.path_congr hd h.1 h.2)⟩

end LookupChain

def Lookup.account : Lookup where
  collection :=
    (⟨"accounts"⟩ : Collection (.record "Account" [⟨"member_ids", "memberIds", .list .text⟩]))
  access := .member ⟨"member_ids", "memberIds", .list .text⟩ (.head _)
  field := "memberIds"
  key?_eq := rfl

def Lookup.project : Lookup where
  collection := (⟨"teams/blue/projects"⟩ : Collection .map)
  access := .field "accountId"
  field := "accountId"
  key?_eq := rfl

/-- The members of the account of a project, found by the id that is stored or by an id that looks like
the start of its path. The index in that path is padded, so it is accepted but read as another one. -/
theorem LookupChain.text_eq_text_iff_account :
    let stored : Path := (((⟨"resource"⟩ : Path).field "data").field "$projectIds").field "00"
    let c : LookupChain := .next (.first (.path stored) .project) .account
    let d : LookupChain := .next (.first (.literal "resource.data") .project) .account
    c.Proper ∧ d.Proper ∧
      c.path.text = "get(/databases/$(database)/documents/accounts/$(" ++
        "get(/databases/$(database)/documents/teams/blue/projects/$(resource.data.$projectIds[00]))" ++
          ".data.accountId)).data.memberIds" ∧
      c.path.text ≠ d.path.text := by
  intro stored c d
  have hroot : Path.Readable ⟨"resource"⟩ := Path.readable_root (by decide)
  have hdata : (Path.field ⟨"resource"⟩ "data").Readable := hroot.field (by decide)
  have hids : ((Path.field ⟨"resource"⟩ "data").field "$projectIds").Readable :=
    hdata.field (by decide)
  have hstored : stored.Accepted := (hids.exists_parse_field_iff "00").mpr (.inr ⟨rfl, by decide⟩)
  have hproject : Lookup.project.Proper := ⟨by decide, by decide⟩
  have haccount : Lookup.account.Proper := ⟨by decide, by decide⟩
  have hc : c.Proper := .next (.first (.path hstored) hproject) haccount
  have hd : d.Proper := .next (.first (.literal (by decide) (by decide)) hproject) haccount
  refine ⟨hc, hd, by decide +kernel, fun h => ?_⟩
  cases ((text_eq_text_iff c d hc hd).mp h).1

end AccessRules
