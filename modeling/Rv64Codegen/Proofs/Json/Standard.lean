import Rv64Codegen.Json.Standard
import Rv64Codegen.Proofs.Json.Text
import Rv64Codegen.Proofs.Outcome

namespace Rv64Codegen

/-!
# The standard codec keeps to the laws

Text is read as the value it was written for.  What is left are the fields of a record,
which are looked up by their names.
-/

namespace Json

/-- The members of a record are those of an object with readable names. -/
def readable (members : List (String × Json)) : List (Option String × Json) :=
  members.map fun (name, value) => (some name, value)

theorem valuesOf_readable_cons
    (first : String × Json)
    (rest : List (String × Json))
    (name : String) :
    valuesOf (readable (first :: rest)) name =
      if first.1 = name then first.2 :: valuesOf (readable rest) name
      else valuesOf (readable rest) name := by
  by_cases same : first.1 = name <;> simp [valuesOf, readable, same]

theorem valuesOf_eq_nil
    {members : List (String × Json)}
    {name : String}
    (absent : name ∉ members.map Prod.fst) :
    valuesOf (readable members) name = [] := by
  induction members with
  | nil =>
      rfl
  | cons first rest inductionHypothesis =>
      rw [List.map_cons, List.mem_cons, not_or] at absent
      rw [valuesOf_readable_cons, if_neg (Ne.symm absent.1)]
      exact inductionHypothesis absent.2

/-- Where no name occurs twice, a name has the one value it was written with. -/
theorem valuesOf_eq_singleton
    {members : List (String × Json)}
    (distinct : (members.map Prod.fst).Nodup)
    {name : String}
    {value : Json}
    (member : (name, value) ∈ members) :
    valuesOf (readable members) name = [value] := by
  induction members with
  | nil =>
      cases member
  | cons first rest inductionHypothesis =>
      rw [List.map_cons, List.nodup_cons] at distinct
      rw [valuesOf_readable_cons]
      rcases List.mem_cons.mp member with rfl | inRest
      · rw [if_pos rfl, valuesOf_eq_nil distinct.1]
      · have different : first.1 ≠ name := by
          rintro rfl
          exact distinct.1 (List.mem_map.mpr ⟨_, inRest, rfl⟩)
        rw [if_neg different]
        exact inductionHypothesis distinct.2 inRest

/-- The fields of a record are found under their names. -/
theorem fields?_record
    {members : List (String × Json)}
    (distinct : (members.map Prod.fst).Nodup) :
    (record members).fields? (members.map Prod.fst) =
      some (members.map fun member => some member.2) := by
  rw [record, fields?, if_pos (by simp), mapM_eq_some_iff, List.map_map, List.map_map]
  refine List.map_congr_left ?_
  rintro ⟨name, value⟩ member
  show memberOf? (readable members) name = _
  rw [memberOf?, valuesOf_eq_singleton distinct member]
  rfl

end Json

theorem Codec.lawful_standard :
    Codec.standard.Lawful where
  parse?_print := fun document _ => Json.parse?_text document
  integer?_integer := fun _ _ _ lower upper => if_pos ⟨lower, upper⟩
  string?_string := fun _ => rfl
  present?_null := rfl
  present?_integer := fun _ => rfl
  items?_array := fun _ => rfl
  fields?_record := fun _ distinct => Json.fields?_record distinct
  choice?_plain := fun _ => rfl
  choice?_tagged := fun _ _ => rfl

end Rv64Codegen
