/- Evi7688/Library/Delimited
   digest: Delimiter-terminated records of a stream, and what a cut of the stream does to them. -/

import Mathlib.Tactic.Common
import Mathlib.Data.List.Infix
import Mathlib.Data.List.Count
import Mathlib.Data.List.TakeWhile

set_option autoImplicit false
set_option relaxedAutoImplicit false

namespace Evi7688.Library.Delimited

universe u

variable {α : Type u} [DecidableEq α]

/-- The records that end in the stream, when `carry` of the first one was read before it. -/
def recordsFrom (d : α) (carry : List α) : List α → List (List α)
  | [] => []
  | x :: xs => if x = d then carry :: recordsFrom d [] xs else recordsFrom d (carry ++ [x]) xs

/-- The unfinished record left after the stream. -/
def pendingFrom (d : α) (carry : List α) : List α → List α
  | [] => carry
  | x :: xs => if x = d then pendingFrom d [] xs else pendingFrom d (carry ++ [x]) xs

def records (d : α) (xs : List α) : List (List α) := recordsFrom d [] xs

def pending (d : α) (xs : List α) : List α := pendingFrom d [] xs

theorem recordsFrom_append (d : α) (carry xs ys : List α) :
    recordsFrom d carry (xs ++ ys) =
      recordsFrom d carry xs ++ recordsFrom d (pendingFrom d carry xs) ys := by
  induction xs generalizing carry with
  | nil => rfl
  | cons x xs ih =>
    simp only [List.cons_append, recordsFrom, pendingFrom]
    split
    · rw [ih, List.cons_append]
    · exact ih _

theorem pendingFrom_append (d : α) (carry xs ys : List α) :
    pendingFrom d carry (xs ++ ys) = pendingFrom d (pendingFrom d carry xs) ys := by
  induction xs generalizing carry with
  | nil => rfl
  | cons x xs ih =>
    simp only [List.cons_append, pendingFrom]
    split <;> exact ih _

theorem recordsFrom_of_notMem {d : α} {xs : List α} (carry : List α) (h : d ∉ xs) :
    recordsFrom d carry xs = [] := by
  induction xs generalizing carry with
  | nil => rfl
  | cons x xs ih =>
    simp only [List.mem_cons, not_or] at h
    rw [recordsFrom, if_neg (Ne.symm h.1), ih _ h.2]

theorem pendingFrom_of_notMem {d : α} {xs : List α} (carry : List α) (h : d ∉ xs) :
    pendingFrom d carry xs = carry ++ xs := by
  induction xs generalizing carry with
  | nil => simp [pendingFrom]
  | cons x xs ih =>
    simp only [List.mem_cons, not_or] at h
    rw [pendingFrom, if_neg (Ne.symm h.1), ih _ h.2, List.append_assoc, List.singleton_append]

theorem recordsFrom_record {d : α} {r : List α} (carry ys : List α) (h : d ∉ r) :
    recordsFrom d carry (r ++ d :: ys) = (carry ++ r) :: recordsFrom d [] ys := by
  rw [recordsFrom_append, recordsFrom_of_notMem carry h, pendingFrom_of_notMem carry h,
    List.nil_append, recordsFrom, if_pos rfl]

theorem records_record {d : α} {r : List α} (ys : List α) (h : d ∉ r) :
    records d (r ++ d :: ys) = r :: records d ys :=
  recordsFrom_record [] ys h

theorem pending_record {d : α} {r : List α} (ys : List α) (h : d ∉ r) :
    pending d (r ++ d :: ys) = pending d ys := by
  rw [pending, pendingFrom_append, pendingFrom_of_notMem [] h, pendingFrom, if_pos rfl]
  rfl

section Scanning

variable {d : α} {r : List α} (h : d ∉ r)

include h

theorem bne_of_notMem : ∀ a ∈ r, (a != d) = true := by
  intro a ha
  exact bne_iff_ne.mpr fun heq => h (heq ▸ ha)

theorem takeWhile_record (ys : List α) : (r ++ d :: ys).takeWhile (· != d) = r := by
  rw [List.takeWhile_append_of_pos (bne_of_notMem h)]
  simp

theorem dropWhile_record (ys : List α) : (r ++ d :: ys).dropWhile (· != d) = d :: ys := by
  rw [List.dropWhile_append_of_pos (bne_of_notMem h)]
  simp

end Scanning

theorem length_recordsFrom (d : α) (carry xs : List α) :
    (recordsFrom d carry xs).length = xs.count d := by
  induction xs generalizing carry with
  | nil => rfl
  | cons x xs ih =>
    rw [recordsFrom, List.count_cons]
    split
    · rename_i hx
      simp [ih, hx]
    · rename_i hx
      simp [ih, hx]

theorem exists_record_of_mem {d : α} {xs : List α} (h : d ∈ xs) :
    ∃ r ys, d ∉ r ∧ xs = r ++ d :: ys := by
  induction xs with
  | nil => simp at h
  | cons x xs ih =>
    by_cases hx : x = d
    · exact ⟨[], xs, by simp, by simp [hx]⟩
    · obtain ⟨r, ys, hr, rfl⟩ := ih (by simpa [Ne.symm hx] using h)
      exact ⟨x :: r, ys, by simp [hr, Ne.symm hx], rfl⟩

theorem exists_suffix_recordsFrom {d : α} (carry xs : List α) :
    ∀ r ∈ records d xs, ∃ r' ∈ recordsFrom d carry xs, r <:+ r' := by
  intro r hr
  by_cases hd : d ∈ xs
  · obtain ⟨s, ys, hs, rfl⟩ := exists_record_of_mem hd
    rw [records_record _ hs] at hr
    rw [recordsFrom_record _ _ hs]
    rcases List.mem_cons.mp hr with rfl | hr
    · exact ⟨carry ++ r, List.mem_cons_self, List.suffix_append _ _⟩
    · exact ⟨r, List.mem_cons_of_mem _ hr, List.suffix_rfl⟩
  · rw [records, recordsFrom_of_notMem _ hd] at hr
    simp at hr

theorem exists_suffix_of_mem_records {d : α} (pre mid post : List α) :
    ∀ r ∈ records d mid, ∃ r' ∈ records d (pre ++ (mid ++ post)), r <:+ r' := by
  intro r hr
  obtain ⟨r', hr', hsuffix⟩ := exists_suffix_recordsFrom (pendingFrom d [] pre) mid r hr
  refine ⟨r', ?_, hsuffix⟩
  rw [records, recordsFrom_append, recordsFrom_append]
  exact List.mem_append_right _ (List.mem_append_left _ hr')

theorem notMem_of_mem_recordsFrom {d : α} (carry xs : List α) (hc : d ∉ carry) :
    ∀ r ∈ recordsFrom d carry xs, d ∉ r := by
  induction xs generalizing carry with
  | nil => simp [recordsFrom]
  | cons x xs ih =>
    rw [recordsFrom]
    split
    · intro r hr
      rcases List.mem_cons.mp hr with rfl | hr
      · exact hc
      · apply ih [] _ r hr
        simp
    · rename_i hx
      apply ih
      simp [hc, Ne.symm hx]

theorem flatten_recordsFrom_sublist (d : α) (carry xs : List α) :
    (recordsFrom d carry xs).flatten.Sublist (carry ++ xs) := by
  induction xs generalizing carry with
  | nil => exact List.nil_sublist _
  | cons x xs ih =>
    rw [recordsFrom]
    split
    · rw [List.flatten_cons]
      exact (List.Sublist.refl carry).append ((ih []).trans (List.sublist_cons_self x xs))
    · have hcarried := ih (carry ++ [x])
      rwa [List.append_assoc] at hcarried

theorem exists_split_of_mem_recordsFrom {d : α} (carry xs : List α) :
    ∀ r ∈ recordsFrom d carry xs, ∃ pre post, carry ++ xs = pre ++ (r ++ d :: post) := by
  induction xs generalizing carry with
  | nil => simp [recordsFrom]
  | cons x xs ih =>
    rw [recordsFrom]
    split
    · rename_i hx
      subst hx
      intro r hr
      rcases List.mem_cons.mp hr with rfl | hr
      · exact ⟨[], xs, rfl⟩
      · obtain ⟨pre, post, h⟩ := ih [] r hr
        refine ⟨carry ++ x :: pre, post, ?_⟩
        rw [List.nil_append] at h
        rw [h]
        simp
    · intro r hr
      obtain ⟨pre, post, h⟩ := ih _ r hr
      exact ⟨pre, post, by rw [← h]; simp⟩

theorem recordsFrom_eq_records_iff (d : α) (carry xs : List α) :
    recordsFrom d carry xs = records d xs ↔ d ∈ xs → carry = [] := by
  constructor
  · intro h hd
    obtain ⟨r, ys, hr, rfl⟩ := exists_record_of_mem hd
    rw [records, recordsFrom_record _ _ hr, recordsFrom_record _ _ hr, List.cons.injEq] at h
    exact List.append_left_eq_self.mp h.1
  · intro h
    by_cases hd : d ∈ xs
    · rw [h hd, records]
    · rw [records, recordsFrom_of_notMem _ hd, recordsFrom_of_notMem _ hd]

theorem notMem_pendingFrom (d : α) (carry xs : List α) (hc : d ∉ carry) :
    d ∉ pendingFrom d carry xs := by
  induction xs generalizing carry with
  | nil => exact hc
  | cons x xs ih =>
    rw [pendingFrom]
    split
    · exact ih [] List.not_mem_nil
    · rename_i hx
      apply ih
      simp [hc, Ne.symm hx]

theorem recordsFrom_eq_records_append (d : α) {carry : List α} (xs : List α) (hc : d ∉ carry) :
    recordsFrom d carry xs = records d (carry ++ xs) := by
  rw [records, recordsFrom_append, recordsFrom_of_notMem _ hc, pendingFrom_of_notMem _ hc]
  rfl

/-- A stream of the given records. -/
def delimit (d : α) (rs : List (List α)) : List α := rs.flatMap fun r => r ++ [d]

omit [DecidableEq α] in
theorem delimit_cons (d : α) (r : List α) (rs : List (List α)) :
    delimit d (r :: rs) = r ++ d :: delimit d rs := by
  rw [delimit, List.flatMap_cons, List.append_assoc]
  rfl

theorem records_delimit {d : α} {rs : List (List α)} (h : ∀ r ∈ rs, d ∉ r) :
    records d (delimit d rs) = rs := by
  induction rs with
  | nil => rfl
  | cons r rs ih =>
    have hrest := ih fun r' hr' => h r' (List.mem_cons_of_mem _ hr')
    rw [delimit_cons, records_record _ (h r List.mem_cons_self), hrest]

theorem length_records_delimit_drop {d : α} {rs : List (List α)} (h : ∀ r ∈ rs, d ∉ r) (n : Nat) :
    (records d ((delimit d rs).drop n)).length ≤ rs.length := by
  have hwhole := congrArg List.length (records_delimit h)
  rw [records, length_recordsFrom] at hwhole ⊢
  have hfewer := (List.drop_sublist n (delimit d rs)).count_le d
  omega

section LastDelimiter

/-- What stands behind the last delimiter, or everything. -/
def afterLast (d : α) (xs : List α) : List α := (xs.reverse.takeWhile (· != d)).reverse

/-- What stands before the last delimiter, or everything. -/
def beforeLast (d : α) (xs : List α) : List α :=
  if d ∈ xs then ((xs.reverse.dropWhile (· != d)).drop 1).reverse else xs

variable {d : α}

theorem exists_last_of_mem {xs : List α} (h : d ∈ xs) :
    ∃ before after, d ∉ after ∧ xs = before ++ d :: after := by
  obtain ⟨r, ys, hr, hxs⟩ := exists_record_of_mem (List.mem_reverse.mpr h)
  refine ⟨ys.reverse, r.reverse, fun hd => hr (List.mem_reverse.mp hd), ?_⟩
  rw [← List.reverse_reverse xs, hxs]
  simp

omit [DecidableEq α] in
theorem reverse_append_last (before after : List α) :
    (before ++ d :: after).reverse = after.reverse ++ d :: before.reverse := by
  simp

theorem afterLast_append {after : List α} (h : d ∉ after) (before : List α) :
    afterLast d (before ++ d :: after) = after := by
  have hrev : d ∉ after.reverse := fun hd => h (List.mem_reverse.mp hd)
  rw [afterLast, reverse_append_last, takeWhile_record hrev, List.reverse_reverse]

theorem afterLast_of_notMem {xs : List α} (h : d ∉ xs) : afterLast d xs = xs := by
  have hrev : d ∉ xs.reverse := fun hd => h (List.mem_reverse.mp hd)
  rw [afterLast, List.takeWhile_eq_self_iff.mpr (bne_of_notMem hrev), List.reverse_reverse]

theorem beforeLast_append {after : List α} (h : d ∉ after) (before : List α) :
    beforeLast d (before ++ d :: after) = before := by
  have hrev : d ∉ after.reverse := fun hd => h (List.mem_reverse.mp hd)
  rw [beforeLast, if_pos (by simp), reverse_append_last, dropWhile_record hrev, List.drop_succ_cons,
    List.drop_zero, List.reverse_reverse]

theorem beforeLast_of_notMem {xs : List α} (h : d ∉ xs) : beforeLast d xs = xs := if_neg h

theorem beforeLast_isPrefix (d : α) (xs : List α) : beforeLast d xs <+: xs := by
  by_cases h : d ∈ xs
  · obtain ⟨before, after, hafter, rfl⟩ := exists_last_of_mem h
    rw [beforeLast_append hafter]
    exact List.prefix_append _ _
  · rw [beforeLast_of_notMem h]

theorem afterLast_isSuffix (d : α) (xs : List α) : afterLast d xs <:+ xs := by
  by_cases h : d ∈ xs
  · obtain ⟨before, after, hafter, rfl⟩ := exists_last_of_mem h
    rw [afterLast_append hafter]
    exact ⟨before ++ [d], by simp⟩
  · rw [afterLast_of_notMem h]

theorem length_beforeLast_lt {xs : List α} (h : d ∈ xs) :
    (beforeLast d xs).length < xs.length := by
  obtain ⟨before, after, hafter, rfl⟩ := exists_last_of_mem h
  rw [beforeLast_append hafter, List.length_append, List.length_cons]
  omega

omit [DecidableEq α] in
theorem take_append_last {before : List α} {n : Nat} (h : before.length < n) (after : List α) :
    (before ++ d :: after).take n = before ++ d :: after.take (n - (before.length + 1)) := by
  obtain ⟨k, rfl⟩ : ∃ k, n = before.length + 1 + k := ⟨n - (before.length + 1), by omega⟩
  rw [List.take_append, List.take_of_length_le (by omega), Nat.add_assoc, Nat.add_sub_cancel_left,
    Nat.add_comm 1 k, List.take_succ_cons, Nat.add_comm k 1, ← Nat.add_assoc,
    Nat.add_sub_cancel_left]

theorem afterLast_take {xs : List α} {n : Nat} (h : xs.length - (afterLast d xs).length ≤ n) :
    afterLast d (xs.take n) =
      (afterLast d xs).take (n - (xs.length - (afterLast d xs).length)) := by
  by_cases hd : d ∈ xs
  · obtain ⟨before, after, hafter, rfl⟩ := exists_last_of_mem hd
    have hfront : (before ++ d :: after).length - after.length = before.length + 1 := by
      simp only [List.length_append, List.length_cons]
      omega
    rw [afterLast_append hafter, hfront] at h ⊢
    rw [take_append_last (by omega), afterLast_append fun hmem => hafter (List.mem_of_mem_take hmem)]
  · rw [afterLast_of_notMem hd, afterLast_of_notMem fun hmem => hd (List.mem_of_mem_take hmem),
      Nat.sub_self, Nat.sub_zero]

theorem beforeLast_take (d : α) (xs : List α) (n : Nat) :
    beforeLast d (xs.take n) = if (beforeLast d xs).length < n then beforeLast d xs
      else beforeLast d ((beforeLast d xs).take n) := by
  by_cases h : d ∈ xs
  · obtain ⟨before, after, hafter, rfl⟩ := exists_last_of_mem h
    rw [beforeLast_append hafter]
    split_ifs with hcut
    · rw [take_append_last hcut, beforeLast_append fun hd => hafter (List.mem_of_mem_take hd)]
    · rw [List.take_append_of_le_length (by omega)]
  · rw [beforeLast_of_notMem h]
    split_ifs with hcut
    · rw [List.take_of_length_le hcut.le, beforeLast_of_notMem h]
    · rfl

end LastDelimiter

end Evi7688.Library.Delimited
