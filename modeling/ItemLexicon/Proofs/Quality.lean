import ItemLexicon.Match.Quality
import Mathlib.Logic.Function.Basic
import Mathlib.Order.Lattice

namespace ItemLexicon.Quality

theorem rank_injective : Function.Injective rank := by
  intro a b h
  cases a <;> cases b <;> simp_all [rank]

@[simp] theorem rank_exact : rank .exact = 0 := rfl

theorem isBetter_iff {a b : Quality} : a.isBetter b = true ↔ a.rank < b.rank := decide_eq_true_iff

theorem isAtLeast_iff {a b : Quality} : a.isAtLeast b = true ↔ a.rank ≤ b.rank :=
  decide_eq_true_iff

theorem rank_le_three (a : Quality) : a.rank ≤ 3 := by cases a <;> decide

theorem eq_different_iff {a : Quality} : a = .different ↔ 3 ≤ a.rank := by
  cases a <;> simp [rank]

theorem eq_exact_iff {a : Quality} : a = .exact ↔ a.rank ≤ 0 := by cases a <;> simp [rank]

@[simp] theorem rank_worst (a b : Quality) : (a.worst b).rank = max a.rank b.rank := by
  cases a <;> cases b <;> rfl

theorem worst_eq_exact_iff {a b : Quality} : a.worst b = .exact ↔ a = .exact ∧ b = .exact := by
  cases a <;> cases b <;> simp [worst, isBetter, rank]

theorem worst_of_le {a b : Quality} (h : a.rank ≤ b.rank) : a.worst b = b := by
  apply rank_injective
  rw [rank_worst, max_eq_right h]

theorem eq_of_rank_le_iff {a b : Quality} (h : ∀ n, a.rank ≤ n ↔ b.rank ≤ n) : a = b := by
  apply rank_injective
  exact le_antisymm ((h _).mpr le_rfl) ((h _).mp le_rfl)

theorem rank_foldl_worst_le {α : Type} (f : α → Quality) (l : List α) (q : Quality) (n : Nat) :
    (l.foldl (fun q a => q.worst (f a)) q).rank ≤ n ↔ q.rank ≤ n ∧ ∀ a ∈ l, (f a).rank ≤ n := by
  induction l generalizing q with
  | nil => simp
  | cons a l ih => simp [ih, and_assoc]

end ItemLexicon.Quality
