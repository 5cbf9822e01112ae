import Mathlib.Data.List.Forall2
import AccessRules.Proofs.Lexical.Quoted
import AccessRules.Value

/-! String literals. Whatever characters a string has, its literal is put together of one piece for each
of them, the character itself or a whole escape, so no quote inside of it can end it; and reading it
gives the string (`Value.render_string`). -/

namespace AccessRules

namespace Quoted

theorem exists_pieces (s : List Char) :
    ∃ pieces : List (List Char), encode s = pieces.flatten ∧ List.Forall₂ StandsFor s pieces :=
  ⟨s.map escape, List.flatMap_def,
    List.forall₂_map_right_iff.mpr (List.forall₂_same.mpr fun c _ => standsFor_escape c)⟩

theorem le_toNat_of_mem_encode (h : c ∈ encode s) : 0x20 ≤ c.toNat := by
  obtain ⟨d, -, hc⟩ := List.mem_flatMap.mp h
  exact (standsFor_escape d).le_toNat c hc

end Quoted

open Quoted

/-- A string literal is a quote, one piece for each character of the string, and a quote, none of them
with characters below the space. Reading it gives the string and stops behind it, whatever text it
stands in front of; so strings with the same literal are the same. -/
theorem Value.render_string :
    (∀ s : String, ∃ pieces : List (List Char),
      (Value.string s).render.toList = '"' :: (pieces.flatten ++ ['"']) ∧
      List.Forall₂ StandsFor s.toList pieces ∧
      (∀ c ∈ (Value.string s).render.toList, 0x20 ≤ c.toNat) ∧
      ∀ u, read? ((Value.string s).render.toList ++ u) = some (s.toList, u)) ∧
    Function.Injective fun s => (Value.string s).render := by
  have hrender : ∀ s, (Value.string s).render = quote s := fun s => by rw [render]
  simp only [hrender]
  refine ⟨fun s => ?_, fun s t h => quote_inj h⟩
  obtain ⟨pieces, hpieces, hstands⟩ := exists_pieces s.toList
  have hquote : (quote s).toList = '"' :: (encode s.toList ++ ['"']) := String.toList_ofList
  refine ⟨pieces, by rw [hquote, hpieces], hstands, fun c hc => ?_, read?_quote s⟩
  simp only [hquote, List.mem_cons, List.mem_append, List.not_mem_nil, or_false] at hc
  obtain rfl | hc | rfl := hc
  · decide
  · exact le_toNat_of_mem_encode hc
  · decide

end AccessRules
