/- Evi7688/Library/NamedFields
   digest: Texts of named fields behind a scheme, joined by a separator, and taken apart again. -/

import Mathlib.Data.List.Basic
import Mathlib.Tactic.Common

set_option autoImplicit false
set_option relaxedAutoImplicit false

namespace Evi7688.Library.NamedFields

universe u

variable {α : Type u} [DecidableEq α]

/-- The values of the fields, if they have these names in this order. -/
def values : List (List α) → List (List α) → Option (List (List α))
  | [], [] => some []
  | name :: names, field :: fields =>
    (field.dropPrefix? name).bind fun value => (values names fields).map fun rest => value :: rest
  | _, _ => none

def format (sep : α) (scheme : List α) (names vals : List (List α)) : List α :=
  scheme ++ [sep].intercalate (List.zipWith (· ++ ·) names vals)

def parse (sep : α) (scheme : List α) (names : List (List α)) (text : List α) :
    Option (List (List α)) :=
  (text.dropPrefix? scheme).bind fun body => values names (body.splitOn sep)

theorem values_zipWith {names vals : List (List α)} (hlength : vals.length = names.length) :
    values names (List.zipWith (· ++ ·) names vals) = some vals := by
  induction names generalizing vals with
  | nil =>
    obtain rfl := List.length_eq_zero_iff.mp hlength
    rfl
  | cons name names ih =>
    cases vals with
    | nil => cases hlength
    | cons value vals =>
      have hrest := ih (Nat.succ.inj hlength)
      have hvalue := List.dropPrefix?_append_of_beq value (beq_self_eq_true name)
      rw [List.zipWith_cons_cons, values, hvalue, Option.bind_some, hrest]
      rfl

theorem parse_format {sep : α} (scheme : List α) {names vals : List (List α)}
    (nonempty : names ≠ []) (hlength : vals.length = names.length)
    (clearNames : ∀ name ∈ names, sep ∉ name) (clearValues : ∀ value ∈ vals, sep ∉ value) :
    parse sep scheme names (format sep scheme names vals) = some vals := by
  have hscheme := List.dropPrefix?_append_of_beq
    ([sep].intercalate (List.zipWith (· ++ ·) names vals)) (beq_self_eq_true scheme)
  have hsome : List.zipWith (· ++ ·) names vals ≠ [] := by
    intro hnil
    have hzero := congrArg List.length hnil
    rw [List.length_zipWith, hlength, Nat.min_self] at hzero
    exact nonempty (List.length_eq_zero_iff.mp hzero)
  have hclear : ∀ field ∈ List.zipWith (· ++ ·) names vals, sep ∉ field := by
    intro field hfield
    rw [← List.map_uncurry_zip_eq_zipWith] at hfield
    obtain ⟨⟨name, value⟩, hpair, rfl⟩ := List.mem_map.mp hfield
    have hmem := List.of_mem_zip hpair
    intro hsep
    rcases List.mem_append.mp hsep with hname | hvalue
    · exact clearNames name hmem.1 hname
    · exact clearValues value hmem.2 hvalue
  rw [parse, format, hscheme, Option.bind_some, List.splitOn_intercalate sep hclear hsome,
    values_zipWith hlength]

end Evi7688.Library.NamedFields
