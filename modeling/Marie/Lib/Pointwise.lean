-- Two lists that are related place by place: what is at a place of the one is related
-- to what is there in the other, and a change at one place keeps them so.
import Mathlib.Data.List.Forall2

namespace Pointwise

variable {α β : Type} {R : α → β → Prop} {xs : List α} {ys : List β} {x : α} {y : β}

theorem getElem?_cases (h : List.Forall₂ R xs ys) (i : Nat) :
    xs[i]? = none ∧ ys[i]? = none ∨ ∃ x y, xs[i]? = some x ∧ ys[i]? = some y ∧ R x y := by
  induction h generalizing i with
  | nil => simp
  | @cons x y _ _ hhead _ ih =>
    cases i with
    | zero => exact .inr ⟨x, y, rfl, rfl, hhead⟩
    | succ i => exact ih i

theorem concat (h : List.Forall₂ R xs ys) (hlast : R x y) :
    List.Forall₂ R (xs ++ [x]) (ys ++ [y]) :=
  List.rel_append h (.cons hlast .nil)

theorem of_concat (h : List.Forall₂ R (xs ++ [x]) (ys ++ [y])) : List.Forall₂ R xs ys := by
  have hreverse := List.forall₂_reverse_iff.mpr h
  rw [List.reverse_concat, List.reverse_concat] at hreverse
  exact List.forall₂_reverse_iff.mp (List.forall₂_cons.mp hreverse).2

theorem set (h : List.Forall₂ R xs ys) (i : Nat) (hnew : R x y) :
    List.Forall₂ R (xs.set i x) (ys.set i y) := by
  induction h generalizing i with
  | nil => exact .nil
  | cons hhead htail ih =>
    cases i with
    | zero => exact .cons hnew htail
    | succ i => exact .cons hhead (ih i)

theorem modify {f : α → α} {g : β → β} (h : List.Forall₂ R xs ys) (i : Nat)
    (hfg : ∀ x y, R x y → R (f x) (g y)) :
    List.Forall₂ R (xs.modify i f) (ys.modify i g) := by
  induction h generalizing i with
  | nil => cases i <;> exact .nil
  | cons hhead htail ih =>
    cases i with
    | zero => exact .cons (hfg _ _ hhead) htail
    | succ i => exact .cons hhead (ih i)

end Pointwise
