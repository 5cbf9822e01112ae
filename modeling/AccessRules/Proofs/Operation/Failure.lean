import AccessRules.Proofs.Lexical.Failure
import AccessRules.Proofs.Operation.Spelling

/-! Where the reader of operation keys fails. Text in which no name comes first is refused at its first
character that is no blank. Any other text that is refused starts with a key, the reader takes the
longest one (`OperationKey.Spelled.longest`), and it stops at the first character behind it that is no
blank (`OperationKey.read_stuck`): a comma that no name follows is given back with the blanks behind
it. -/

namespace AccessRules

theorem toNat_lt_of_isKeyBlank (h : isKeyBlank c) : c.toNat < 128 := by
  simp only [isKeyBlank, Bool.or_eq_true, beq_iff_eq] at h
  rcases h with ((rfl | rfl) | rfl) | rfl <;> decide

namespace Operation

/-- Text that starts with the name of an operation. -/
def Named (s : List Char) : Prop :=
  ∃ o : Operation, o.name.toList <+: s

theorem toNat_lt_of_mem_name {o : Operation} : ∀ c ∈ o.name.toList, c.toNat < 128 := by
  have hall : o.name.toList.all (fun c => decide (c.toNat < 128)) = true := by
    cases o <;> rfl
  intro c hc
  simpa using List.all_eq_true.mp hall c hc

theorem front?_eq_none_iff : front? s = none ↔ ¬Named s := by
  constructor
  · rintro h ⟨o, rest, rfl⟩
    rw [front?_append] at h
    cases h
  · intro h
    apply Option.eq_none_iff_forall_ne_some.mpr
    rintro ⟨o, rest⟩ hfront
    exact h ⟨o, rest, (eq_append_of_front? hfront).symm⟩

theorem next?_others (s : List Char) : next? (others s).2 = none := by
  fun_induction others s with
  | case1 s h => exact h
  | case2 s o rest _ _ os last hothers ih => rwa [hothers] at ih

/-- A comma that no name follows leads to no further operation. -/
theorem next?_comma (hb : Blank b) (hr : ¬Named (r.dropWhile isKeyBlank)) :
    next? (b ++ ',' :: r) = none := by
  rw [next?, dropWhile_append_stop hb (stop_cons rfl r)]
  exact front?_eq_none_iff.mpr hr

theorem next?_cons (hc : isKeyBlank c = false) (hcomma : c ≠ ',') : next? (c :: r) = none := by
  rw [next?, List.dropWhile_cons_of_neg (by simp [hc])]
  split
  · rename_i heq
    exact absurd (List.cons.inj heq).1 hcomma
  · rfl

theorem OthersSpelled.toNat_lt (h : OthersSpelled os t) : ∀ c ∈ t, c.toNat < 128 := by
  induction h with
  | nil => exact nofun
  | @cons b b' os t o hb hb' _ ih =>
    intro c hc
    simp only [List.mem_append, List.mem_cons] at hc
    rcases hc with hc | rfl | hc | hc | hc
    · exact toNat_lt_of_isKeyBlank (hb c hc)
    · decide
    · exact toNat_lt_of_isKeyBlank (hb' c hc)
    · exact toNat_lt_of_mem_name c hc
    · exact ih c hc

/-- The names behind one that no further name follows are the longest such text. -/
theorem OthersSpelled.length_le (h : OthersSpelled os t) (h' : OthersSpelled os' t')
    (hu : next? u = none) (heq : t' ++ u' = t ++ u) : t'.length ≤ t.length := by
  obtain ⟨t'', -, hrest⟩ := others_sound u'
  have hlast : (others u').2 = u := by
    have hothers := congrArg (fun s => (others s).2) heq
    rwa [others_append h', others_append h, others_of_next?_eq_none hu] at hothers
  have hlength := congrArg List.length heq
  have hlength' := congrArg List.length hrest
  rw [List.length_append, hlast] at hlength'
  rw [List.length_append, List.length_append] at hlength
  omega

end Operation

namespace OperationKey

theorem Spelled.toNat_lt (h : Spelled ops t) : ∀ c ∈ t, c.toNat < 128 := by
  cases h with
  | intro hb h =>
    intro c hc
    simp only [List.mem_append] at hc
    rcases hc with hc | hc | hc
    · exact toNat_lt_of_isKeyBlank (hb c hc)
    · exact Operation.toNat_lt_of_mem_name c hc
    · exact h.toNat_lt c hc

theorem Spelled.longest (h : Spelled ops t) (hu : Operation.next? u = none) :
    Longest (fun t => ∃ ops, Spelled ops t) t u := by
  refine ⟨⟨ops, h⟩, ?_⟩
  rintro t' ⟨ops', h'⟩ ⟨u', heq⟩
  cases h with
  | @intro b os t o hb h =>
    cases h' with
    | @intro b' os' t' o' hb' h' =>
      simp only [List.append_assoc] at heq
      obtain ⟨rfl, hnames⟩ :=
        span_inj hb' hb (o'.head_name_append _) (o.head_name_append _) heq
      have hfront := congrArg Operation.front? hnames
      rw [Operation.front?_append, Operation.front?_append, Option.some.injEq, Prod.mk.injEq] at hfront
      obtain ⟨rfl, hothers⟩ := hfront
      have hle := h.length_le h' hu hothers
      simp only [List.length_append]
      omega

/-- Text that starts with a name starts with a key that no further name follows. -/
theorem exists_spelled_append (h : Operation.Named (s.dropWhile isKeyBlank)) :
    ∃ ops t u, Spelled ops t ∧ Operation.next? u = none ∧ s = t ++ u := by
  obtain ⟨o, rest, hname⟩ := h
  obtain ⟨t, ht, hrest⟩ := Operation.others_sound rest
  refine ⟨_, _, _, .intro (o := o) (blank_takeWhile s) ht, Operation.next?_others rest, ?_⟩
  rw [List.append_assoc, List.append_assoc, ← hrest, hname, List.takeWhile_append_dropWhile]

theorem Spelled.named (h : Spelled ops t) (u : List Char) :
    Operation.Named ((t ++ u).dropWhile isKeyBlank) := by
  cases h with
  | @intro b os t o hb h =>
    rw [List.append_assoc, List.append_assoc, dropWhile_append_stop hb (o.head_name_append _)]
    exact ⟨o, List.prefix_append _ _⟩

/-! ## Failures -/

theorem read_unnamed (h : ¬Operation.Named (s.dropWhile isKeyBlank)) :
    read s = .error ⟨(s.takeWhile isKeyBlank).length, .expected .operation⟩ := by
  have hlength := congrArg List.length (List.takeWhile_append_dropWhile (p := isKeyBlank) (l := s))
  rw [List.length_append] at hlength
  have hsub : s.length - (s.dropWhile isKeyBlank).length = (s.takeWhile isKeyBlank).length := by omega
  simp only [read, Operation.front?_eq_none_iff.mpr h, hsub]

/-- Behind a key that no further name follows, the reader stops at what is no blank. -/
theorem read_stuck (h : Spelled ops t) (hb : Blank b) (hc : isKeyBlank c = false)
    (hu : Operation.next? (b ++ c :: r) = none) :
    read (t ++ (b ++ c :: r)) = .error ⟨t.length + b.length, .unexpected⟩ := by
  have hlast : (b ++ c :: r).dropWhile isKeyBlank = c :: r := dropWhile_append_stop hb (stop_cons hc r)
  cases h with
  | @intro b₀ os t o hb₀ h =>
    have hstart : (b₀ ++ (o.name.toList ++ t) ++ (b ++ c :: r)).dropWhile isKeyBlank =
        o.name.toList ++ (t ++ (b ++ c :: r)) := by
      rw [List.append_assoc, List.append_assoc, dropWhile_append_stop hb₀ (o.head_name_append _)]
    simp only [read, hstart, Operation.front?_append, Operation.others_append h,
      Operation.others_of_next?_eq_none hu, hlast]
    rw [← List.append_assoc, List.length_append, Nat.add_sub_cancel, List.length_append]

/-- Text with a name in front that is refused starts with a key that no further name follows. -/
theorem exists_stuck_of_read (h : read s = .error f) (hs : Operation.Named (s.dropWhile isKeyBlank)) :
    ∃ ops t b c r, Spelled ops t ∧ Blank b ∧ isKeyBlank c = false ∧
      Operation.next? (b ++ c :: r) = none ∧ s = t ++ (b ++ c :: r) := by
  obtain ⟨ops, t, u, ht, hu, rfl⟩ := exists_spelled_append hs
  rw [← List.takeWhile_append_dropWhile (p := isKeyBlank) (l := u)] at h hu ⊢
  have hc := List.head?_dropWhile_not isKeyBlank u
  generalize u.dropWhile isKeyBlank = left at h hu hc ⊢
  cases left with
  | nil =>
    have hne : ops ≠ [] := by
      rintro rfl
      cases ht
    have hread : read (t ++ u.takeWhile isKeyBlank) = .ok ⟨ops, hne⟩ :=
      read_of_spelled ht (blank_takeWhile u)
    rw [List.append_nil, hread] at h
    cases h
  | cons c r => exact ⟨ops, t, _, c, r, ht, blank_takeWhile u, by simpa using hc, hu, rfl⟩

/-- There is one such place. -/
theorem Spelled.place_unique (h : Spelled ops t) (h' : Spelled ops' t') (hb : Blank b) (hb' : Blank b')
    (hc : isKeyBlank c = false) (hc' : isKeyBlank c' = false)
    (hu : Operation.next? (b ++ c :: r) = none) (hu' : Operation.next? (b' ++ c' :: r') = none)
    (heq : t ++ (b ++ c :: r) = t' ++ (b' ++ c' :: r')) : t.length + b.length = t'.length + b'.length := by
  obtain ⟨rfl, hrest⟩ := (h.longest hu).unique (h'.longest hu') heq
  obtain ⟨rfl, -⟩ := span_inj hb hb' (stop_cons hc r) (stop_cons hc' r') hrest
  rfl

theorem parse_eq_mapError (s : String) : parse s = (read s.toList).mapError (.malformed s) := by
  unfold parse
  cases read s.toList <;> rfl

/-- A text that is refused without a name in front is marked behind its blanks. Any other one is
marked at the first character that is no blank behind its longest start that spells a key: at the
comma that no name follows, or where a name runs on. -/
theorem place_of_parse (s : String) (e : ParseError) (h : parse s = .error e) :
    ∃ f, e = .malformed s f ∧ (∀ c ∈ s.toList.take f.offset, c.toNat < 128) ∧
      (¬Operation.Named (s.toList.dropWhile isKeyBlank) →
        f.offset = (s.toList.takeWhile isKeyBlank).length ∧ f.reason.detail = "expected rule type") ∧
      (Operation.Named (s.toList.dropWhile isKeyBlank) →
        f.reason.detail = "" ∧
        (∃ t u, s.toList = t ++ u ∧ Longest (fun t => ∃ ops, Spelled ops t) t u ∧
          f.offset = t.length + (u.takeWhile isKeyBlank).length) ∧
        (∃ c, s.toList[f.offset]? = some c ∧ isKeyBlank c = false) ∧
        (∀ ops t b r, s.toList = t ++ (b ++ ',' :: r) → Spelled ops t → Blank b →
          ¬Operation.Named (r.dropWhile isKeyBlank) → f.offset = t.length + b.length) ∧
        ∀ ops t c r, s.toList = t ++ c :: r → Spelled ops t → isKeyBlank c = false → c ≠ ',' →
          f.offset = t.length) := by
  rw [parse_eq_mapError] at h
  obtain ⟨f, hread, rfl⟩ := exists_error_of_mapError h
  refine ⟨f, rfl, ?_⟩
  generalize s.toList = s at hread ⊢
  by_cases hnamed : Operation.Named (s.dropWhile isKeyBlank)
  · obtain ⟨ops, t, b, c, r, ht, hb, hc, hu, rfl⟩ := exists_stuck_of_read hread hnamed
    rw [read_stuck ht hb hc hu] at hread
    cases hread
    refine ⟨?_, fun h => absurd hnamed h, fun _ =>
      ⟨rfl, ⟨t, _, rfl, ht.longest hu, ?_⟩, ⟨c, ?_, hc⟩, ?_, ?_⟩⟩
    · intro d hd
      rw [← List.append_assoc, ← List.length_append, List.take_left] at hd
      rcases List.mem_append.mp hd with hd | hd
      · exact ht.toNat_lt d hd
      · exact toNat_lt_of_isKeyBlank (hb d hd)
    · rw [takeWhile_append_stop hb (stop_cons hc r)]
    · rw [← List.append_assoc, ← List.length_append, List.getElem?_append_right (Nat.le_refl _),
        Nat.sub_self, List.getElem?_cons_zero]
    · intro ops' t' b' r' heq ht' hb' hr'
      exact ht.place_unique ht' hb hb' hc rfl hu (Operation.next?_comma hb' hr') heq
    · intro ops' t' c' r' heq ht' hc' hcomma
      exact ht.place_unique ht' hb .nil hc hc' hu (Operation.next?_cons hc' hcomma) heq
  · rw [read_unnamed hnamed] at hread
    cases hread
    refine ⟨fun c hc => ?_, fun _ => ⟨rfl, rfl⟩, fun h => absurd h hnamed⟩
    rw [← List.prefix_iff_eq_take.mp (List.takeWhile_prefix _)] at hc
    exact toNat_lt_of_isKeyBlank (blank_takeWhile s c hc)

/-- A word that is no name behind a comma, which is where the failure is placed. -/
theorem place_of_parse_erase :
    parse "read\t, erase" = .error (.malformed "read\t, erase" ⟨5, .unexpected⟩) ∧
      ∃ f, ParseError.malformed "read\t, erase" ⟨5, .unexpected⟩ = .malformed "read\t, erase" f ∧
        f.offset = "read".toList.length + ['\t'].length ∧ f.reason.detail = "" := by
  have hspelled : Spelled [.read] "read".toList := .intro .nil .nil
  have hblank : Blank ['\t'] := List.forall_mem_singleton.mpr rfl
  have herase : ¬Operation.Named (" erase".toList.dropWhile isKeyBlank) :=
    Operation.front?_eq_none_iff.mp rfl
  have hread : read "read\t, erase".toList = .error ⟨5, .unexpected⟩ :=
    read_stuck hspelled hblank rfl (Operation.next?_comma hblank herase)
  have hparse : parse "read\t, erase" = .error (.malformed "read\t, erase" ⟨5, .unexpected⟩) := by
    rw [parse, hread]
  obtain ⟨f, heq, -, -, hnamed⟩ := place_of_parse _ _ hparse
  obtain ⟨hdetail, -, -, hcomma, -⟩ := hnamed (hspelled.named _)
  exact ⟨hparse, f, heq, hcomma _ _ _ _ rfl hspelled hblank herase, hdetail⟩

end OperationKey

end AccessRules
