import Mathlib.Data.List.DropRight
import AccessRules.Operation.Reader
import AccessRules.Proofs.Lexical.Code

/-! What an operation key reads as. Names with commas between them and blanks around each spell a key
(`OperationKey.Spelled`), and the reader takes just these texts: a comma with a name behind it is one
step of the reader (`Operation.next?_append`), and a run takes all of them (`Operation.others_append`,
`Operation.others_sound`). So the text of a key is read as the key (`OperationKey.parse_text`), and
cutting a text at its commas and looking up each piece by itself comes to the same as reading it
(`OperationKey.parse_iff_pieces`). -/

namespace AccessRules

/-! ## Blanks -/

def Blank (t : List Char) : Prop :=
  ∀ c ∈ t, isKeyBlank c

/-- A text without the blanks at its two ends. -/
def trimBlanks (t : List Char) : List Char :=
  (t.dropWhile isKeyBlank).rdropWhile isKeyBlank

theorem Blank.nil : Blank [] := fun _ h => nomatch h

theorem Blank.append (ht : Blank t) (hu : Blank u) : Blank (t ++ u) := fun c hc =>
  (List.mem_append.mp hc).elim (ht c) (hu c)

theorem Blank.comma_notMem (h : Blank t) : ',' ∉ t := fun hm => absurd (h ',' hm) (by decide)

theorem blank_takeWhile (t : List Char) : Blank (t.takeWhile isKeyBlank) :=
  List.all_eq_true.mp List.all_takeWhile

theorem exists_trimBlanks (t : List Char) :
    ∃ b b', Blank b ∧ Blank b' ∧ t = b ++ (trimBlanks t ++ b') := by
  refine ⟨_, (t.dropWhile isKeyBlank).rtakeWhile isKeyBlank, blank_takeWhile t, ?_, ?_⟩
  · exact fun c hc => List.mem_rtakeWhile_imp hc
  · rw [trimBlanks, List.rdropWhile_append_rtakeWhile, List.takeWhile_append_dropWhile]

theorem trimBlanks_append (hb : Blank b) (hb' : Blank b') (ht : ∀ c ∈ t, isKeyBlank c = false)
    (hne : t ≠ []) : trimBlanks (b ++ (t ++ b')) = t := by
  have hhead : ∀ c ∈ (t ++ b').head?, isKeyBlank c = false := by
    rw [List.head?_append_of_ne_nil _ hne]
    exact fun c hc => ht c (List.mem_of_head? hc)
  have hlast : ∀ c ∈ t.reverse.head?, isKeyBlank c = false :=
    fun c hc => ht c (List.mem_reverse.mp (List.mem_of_head? hc))
  have hend : Blank b'.reverse := fun c hc => hb' c (List.mem_reverse.mp hc)
  rw [trimBlanks, dropWhile_append_stop hb hhead, List.rdropWhile, List.reverse_append,
    dropWhile_append_stop hend hlast, List.reverse_reverse]

namespace Operation

/-! ## Names -/

theorem of_mem_name {o : Operation} : ∀ c ∈ o.name.toList, isKeyBlank c = false ∧ c ≠ ',' := by
  have hall : o.name.toList.all (fun c => !isKeyBlank c && c != ',') = true := by
    cases o <;> rfl
  intro c hc
  simpa using List.all_eq_true.mp hall c hc

theorem name_ne_nil (o : Operation) : o.name.toList ≠ [] := by
  cases o <;> exact List.cons_ne_nil _ _

theorem head_name_append (o : Operation) (u : List Char) :
    ∀ c ∈ (o.name.toList ++ u).head?, isKeyBlank c = false := by
  rw [List.head?_append_of_ne_nil _ o.name_ne_nil]
  exact fun c hc => (of_mem_name c (List.mem_of_head? hc)).1

theorem parse_eq_ok_iff {name : String} {o : Operation} : parse name = .ok o ↔ name = o.name := by
  constructor
  · intro h
    rw [parse] at h
    split at h
    · rename_i o' hname
      cases h
      have heq := List.find?_some hname
      exact (eq_of_beq heq).symm
    · cases h
  · rintro rfl
    cases o <;> rfl

/-- No name is the start of another one. -/
theorem front?_append (o : Operation) (u : List Char) : front? (o.name.toList ++ u) = some (o, u) := by
  cases o <;> rfl

theorem eq_append_of_front? {s rest : List Char} {o : Operation} (h : front? s = some (o, rest)) :
    s = o.name.toList ++ rest := by
  obtain ⟨o', hfind, heq⟩ := Option.map_eq_some_iff.mp h
  cases heq
  have hpre := List.find?_some hfind
  exact (List.prefix_iff_eq_append.mp (List.isPrefixOf_iff_prefix.mp hpre)).symm

theorem next?_append (hb : Blank b) (hb' : Blank b') (o : Operation) (u : List Char) :
    next? (b ++ ',' :: (b' ++ (o.name.toList ++ u))) = some (o, u) := by
  rw [next?, dropWhile_append_stop hb (stop_cons rfl _)]
  change front? ((b' ++ (o.name.toList ++ u)).dropWhile isKeyBlank) = some (o, u)
  rw [dropWhile_append_stop hb' (o.head_name_append u), front?_append]

theorem next?_sound {s rest : List Char} {o : Operation} (h : next? s = some (o, rest)) :
    ∃ b b', Blank b ∧ Blank b' ∧ s = b ++ ',' :: (b' ++ (o.name.toList ++ rest)) := by
  rw [next?] at h
  split at h
  · rename_i r hr
    refine ⟨_, _, blank_takeWhile s, blank_takeWhile r, ?_⟩
    rw [← eq_append_of_front? h, List.takeWhile_append_dropWhile, ← hr,
      List.takeWhile_append_dropWhile]
  · cases h

theorem next?_blank (hb : Blank b) : next? b = none := by
  rw [next?, List.dropWhile_eq_nil_iff.mpr hb]

/-! ## The names behind the first one -/

/-- How operations are spelled behind another one, each after a comma with blanks around it. -/
inductive OthersSpelled : List Operation → List Char → Prop
  | nil : OthersSpelled [] []
  | cons (hb : Blank b) (hb' : Blank b') (h : OthersSpelled os t) :
      OthersSpelled (o :: os) (b ++ ',' :: (b' ++ (o.name.toList ++ t)))

theorem others_of_next?_eq_none (h : next? u = none) : others u = ([], u) := by
  rw [others]
  split
  · rfl
  · rename_i hnext
    rw [h] at hnext
    cases hnext

theorem others_append (h : OthersSpelled os t) (u : List Char) :
    others (t ++ u) = (os ++ (others u).1, (others u).2) := by
  induction h with
  | nil => rfl
  | @cons b b' os t o hb hb' _ ih =>
    have hnext : next? (b ++ ',' :: (b' ++ (o.name.toList ++ t)) ++ u) = some (o, t ++ u) := by
      simpa only [List.append_assoc, List.cons_append] using next?_append hb hb' o (t ++ u)
    rw [others]
    split
    · rename_i h
      rw [hnext] at h
      cases h
    · rename_i h
      rw [hnext] at h
      cases h
      rw [ih]
      rfl

theorem others_sound (s : List Char) : ∃ t, OthersSpelled (others s).1 t ∧ s = t ++ (others s).2 := by
  fun_induction others s with
  | case1 s _ => exact ⟨[], .nil, rfl⟩
  | case2 s o rest h _ os last hothers ih =>
    obtain ⟨b, b', hb, hb', rfl⟩ := next?_sound h
    obtain ⟨t, ht, hrest⟩ := ih
    rw [hothers] at ht hrest
    refine ⟨_, .cons hb hb' ht, ?_⟩
    rw [hrest]
    simp only [List.append_assoc, List.cons_append]

end Operation

namespace OperationKey

/-- How a key is spelled up to the end of its last name. -/
inductive Spelled : List Operation → List Char → Prop
  | intro (hb : Blank b) (h : Operation.OthersSpelled os t) :
      Spelled (o :: os) (b ++ (o.name.toList ++ t))

theorem read_of_spelled {key : OperationKey} (h : Spelled key.operations t) (hb : Blank b) :
    read (t ++ b) = .ok key := by
  obtain ⟨ops, hne⟩ := key
  cases h with
  | @intro b₀ os t o hb₀ h =>
    have hstart : (b₀ ++ (o.name.toList ++ t) ++ b).dropWhile isKeyBlank =
        o.name.toList ++ (t ++ b) := by
      rw [List.append_assoc, List.append_assoc, dropWhile_append_stop hb₀ (o.head_name_append _)]
    simp only [read, hstart, Operation.front?_append, Operation.others_append h,
      Operation.others_of_next?_eq_none (Operation.next?_blank hb), List.append_nil,
      List.dropWhile_eq_nil_iff.mpr hb]

theorem spelled_of_read {key : OperationKey} (h : read s = .ok key) :
    ∃ t b, Spelled key.operations t ∧ Blank b ∧ s = t ++ b := by
  simp only [read] at h
  split at h
  · cases h
  · rename_i first rest hfront
    split at h
    · rename_i hlast
      cases h
      obtain ⟨t, ht, hrest⟩ := Operation.others_sound rest
      refine ⟨_, _, .intro (blank_takeWhile s) ht, List.dropWhile_eq_nil_iff.mp hlast, ?_⟩
      rw [List.append_assoc, List.append_assoc, ← hrest, ← Operation.eq_append_of_front? hfront,
        List.takeWhile_append_dropWhile]
    · cases h

theorem parse_eq_ok_iff {input : String} {key : OperationKey} :
    parse input = .ok key ↔ ∃ t b, Spelled key.operations t ∧ Blank b ∧ input.toList = t ++ b := by
  constructor
  · intro h
    rw [parse] at h
    split at h
    · rename_i hread
      cases h
      exact spelled_of_read hread
    · cases h
  · rintro ⟨t, b, ht, hb, hinput⟩
    rw [parse, hinput, read_of_spelled ht hb]

theorem spelled_join (hne : ops ≠ []) : Spelled ops (Operation.join ops).toList := by
  have hblank : Blank [' '] := by simp [Blank, isKeyBlank]
  rw [Operation.join, String.toList_intercalate, List.map_map]
  induction ops with
  | nil => exact absurd rfl hne
  | cons o os ih =>
    cases os with
    | nil => simpa using Spelled.intro (o := o) .nil .nil
    | cons o' os =>
      have hrest := ih (List.cons_ne_nil o' os)
      rw [List.map_cons, List.map_cons, List.intercalate_cons_cons, ← List.map_cons]
      generalize ", ".toList.intercalate _ = t at hrest
      cases hrest with
      | intro hb h =>
        have hothers := Operation.OthersSpelled.cons (o := o') .nil (hblank.append hb) h
        have hspelled := Spelled.intro (o := o) .nil hothers
        simpa using hspelled

/-- A key is read back from its text. -/
theorem parse_text (key : OperationKey) : parse key.text = .ok key := by
  refine parse_eq_ok_iff.mpr ⟨key.text.toList, [], spelled_join key.ne_nil, .nil, ?_⟩
  rw [List.append_nil]

theorem text_inj {key key' : OperationKey} (h : key.text = key'.text) : key = key' := by
  have hkey := key.parse_text
  rw [h, parse_text] at hkey
  exact (Except.ok.inj hkey).symm

/-! ## Pieces -/

/-- A text cut at its commas, each piece without the blanks at its ends. -/
def pieces (s : String) : List String :=
  (s.toList.splitOn ',').map fun t => String.ofList (trimBlanks t)

theorem trimBlanks_name (hb : Blank b) (hb' : Blank b') (o : Operation) :
    trimBlanks (b ++ (o.name.toList ++ b')) = o.name.toList :=
  trimBlanks_append hb hb' (fun c hc => (Operation.of_mem_name c hc).1) o.name_ne_nil

theorem comma_notMem_name (hb : Blank b) (hb' : Blank b') (o : Operation) :
    ',' ∉ b ++ (o.name.toList ++ b') := by
  simp only [List.mem_append, not_or]
  exact ⟨hb.comma_notMem, fun hm => (Operation.of_mem_name _ hm).2 rfl, hb'.comma_notMem⟩

/-- A name with blanks in front of it, and what is spelled behind it. -/
theorem pieces_of_spelled (h : Operation.OthersSpelled os t) (hb : Blank b) (hb' : Blank b')
    (o : Operation) : ((b ++ (o.name.toList ++ t) ++ b').splitOn ',').map trimBlanks =
      (o :: os).map fun o => o.name.toList := by
  induction h generalizing b o with
  | nil =>
    rw [List.append_nil, List.append_assoc, List.splitOn_eq_singleton (comma_notMem_name hb hb' o),
      List.map_singleton, trimBlanks_name hb hb' o]
    rfl
  | @cons b₁ b₂ os t o' hb₁ hb₂ _ ih =>
    have hcut : b ++ (o.name.toList ++ (b₁ ++ ',' :: (b₂ ++ (o'.name.toList ++ t)))) ++ b' =
        b ++ (o.name.toList ++ b₁) ++ ',' :: (b₂ ++ (o'.name.toList ++ t) ++ b') := by
      simp only [List.append_assoc, List.cons_append]
    rw [hcut, List.splitOn_append_cons_self, List.splitOn_eq_singleton (comma_notMem_name hb hb₁ o),
      List.map_append, ih hb₂ o', List.map_singleton, trimBlanks_name hb hb₁ o]
    rfl

/-- Pieces that are names with blanks around them spell a key between commas. -/
theorem spelled_of_pieces {ts : List (List Char)} (h : ts.map trimBlanks = ops.map fun o => o.name.toList)
    (hne : ts ≠ []) : ∃ t b, Spelled ops t ∧ Blank b ∧ [','].intercalate ts = t ++ b := by
  induction ts generalizing ops with
  | nil => exact absurd rfl hne
  | cons u us ih =>
    cases ops with
    | nil => cases h
    | cons o os =>
      obtain ⟨hname, hrest⟩ := List.cons.inj h
      obtain ⟨b, b', hb, hb', hu⟩ := exists_trimBlanks u
      rw [hname] at hu
      cases us with
      | nil =>
        cases os with
        | nil =>
          refine ⟨_, b', .intro hb .nil, hb', ?_⟩
          rw [List.intercalate_singleton, hu, List.append_nil, List.append_assoc]
        | cons _ _ => cases hrest
      | cons v vs =>
        obtain ⟨t, b'', ht, hb'', heq⟩ := ih hrest (List.cons_ne_nil v vs)
        cases ht with
        | intro hb₁ hos =>
          refine ⟨_, b'', .intro hb (.cons hb' hb₁ hos), hb'', ?_⟩
          rw [List.intercalate_cons_cons, heq, hu]
          simp only [List.append_assoc, List.cons_append, List.nil_append]

theorem parse_eq_ok_iff_map {input : String} {key : OperationKey} :
    parse input = .ok key ↔ pieces input = key.operations.map Operation.name := by
  have htexts : pieces input = key.operations.map Operation.name ↔
      (input.toList.splitOn ',').map trimBlanks = key.operations.map fun o => o.name.toList := by
    refine ⟨fun h => ?_, fun h => ?_⟩
    · simpa [pieces, Function.comp_def] using congrArg (List.map String.toList) h
    · simpa [pieces, Function.comp_def] using congrArg (List.map String.ofList) h
  rw [htexts, parse_eq_ok_iff]
  constructor
  · rintro ⟨t, b, ht, hb, hinput⟩
    rw [hinput]
    generalize key.operations = ops at ht
    cases ht with
    | intro hb₀ h => exact pieces_of_spelled h hb₀ hb _
  · intro h
    obtain ⟨t, b, ht, hb, heq⟩ := spelled_of_pieces h (List.splitOn_ne_nil _ _)
    rw [List.intercalate_splitOn] at heq
    exact ⟨t, b, ht, hb, heq⟩

theorem exists_operations {texts : List String}
    (h : ∀ t ∈ texts, ∃ o, Operation.parse t = .ok o) :
    ∃ ops : List Operation, texts = ops.map Operation.name := by
  induction texts with
  | nil => exact ⟨[], rfl⟩
  | cons t ts ih =>
    obtain ⟨⟨o, ho⟩, hts⟩ := List.forall_mem_cons.mp h
    obtain ⟨os, rfl⟩ := ih hts
    exact ⟨o :: os, by rw [Operation.parse_eq_ok_iff.mp ho, List.map_cons]⟩

/-- A text is read as a key just where each of its pieces is the name of an operation, and then as
the operations of the pieces in order. -/
theorem parse_iff_pieces (s : String) :
    ((∃ key, parse s = .ok key) ↔ ∀ piece ∈ pieces s, ∃ o, Operation.parse piece = .ok o) ∧
      ∀ key, parse s = .ok key → (pieces s).map Operation.parse = key.operations.map .ok := by
  have hnames : ∀ o : Operation, Operation.parse o.name = .ok o :=
    fun o => Operation.parse_eq_ok_iff.mpr rfl
  refine ⟨⟨?_, fun h => ?_⟩, fun key hkey => ?_⟩
  · rintro ⟨key, hkey⟩ piece hpiece
    rw [parse_eq_ok_iff_map.mp hkey] at hpiece
    obtain ⟨o, -, rfl⟩ := List.mem_map.mp hpiece
    exact ⟨o, hnames o⟩
  · obtain ⟨ops, hops⟩ := exists_operations h
    have hne : ops ≠ [] := by
      rintro rfl
      exact List.splitOn_ne_nil ',' s.toList (List.map_eq_nil_iff.mp hops)
    exact ⟨⟨ops, hne⟩, parse_eq_ok_iff_map.mpr hops⟩
  · rw [parse_eq_ok_iff_map.mp hkey, List.map_map]
    exact List.map_congr_left fun o _ => hnames o

/-- Blanks of every kind around the names, and one operation twice. -/
theorem parse_ragged :
    let key : OperationKey := ⟨[.get, .read, .get], List.cons_ne_nil _ _⟩
    parse " get\t,read\r,\nget " = .ok key ∧
      (pieces " get\t,read\r,\nget ").map Operation.parse = key.operations.map .ok := by
  intro key
  have hkey : parse " get\t,read\r,\nget " = .ok key := parse_eq_ok_iff_map.mpr rfl
  exact ⟨hkey, (parse_iff_pieces _).2 key hkey⟩

end OperationKey

end AccessRules
