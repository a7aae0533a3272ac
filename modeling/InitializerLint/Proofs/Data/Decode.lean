import InitializerLint.Data.Decode
import Mathlib.Data.List.Forall2

/-! Which values each decoder accepts, and what it makes of them. -/
namespace InitializerLint.Data.Decode

variable {α : Type}

theorem text_eq_ok {expected s : String} {v : Value} : text expected v = .ok s ↔ v = .text s := by
  cases v <;> simp [text, mismatch]

theorem flag_eq_ok {b : Bool} {v : Value} : flag v = .ok b ↔ v = .bool b := by
  cases v <;> simp [flag, mismatch]

theorem unit_eq_ok {v : Value} : unit v = .ok () ↔ v = .unit ∨ v = .map [] := by
  cases v with
  | map es => cases es <;> simp [unit, mismatch]
  | _ => simp [unit, mismatch]

theorem word_eq_ok {n : UInt64} {v : Value} :
    word v = .ok n ↔ v = .unsigned n ∨ ∃ i, 0 ≤ i ∧ v = .signed i ∧ n = .ofNat i.toNat := by
  cases v with
  | signed i =>
    by_cases hi : i < 0
    · simp [word, hi, Int.not_le.mpr hi]
    · simp [word, hi, eq_comm, Int.not_lt.mp hi]
  | _ => simp [word, mismatch]

theorem variant_text_eq_ok {variants : List (String × α)} {name : String} {a : α} :
    variant variants (.text name) = .ok a ↔ variants.lookup name = some a := by
  cases h : variants.lookup name <;> simp [variant, h]

theorem choice_eq_ok {variants : List (String × α)} {v : Value} {a : α} :
    choice variants v = .ok a ↔
      (∃ name, v = .text name ∧ variants.lookup name = some a) ∨
        ∃ k u, v = .map [(k, u)] ∧ variant variants k = .ok a ∧ unit u = .ok () := by
  cases v with
  | text name => simp [choice, variant_text_eq_ok]
  | map es =>
    match es with
    | [] => simp [choice]
    | [(k, u)] =>
      have hc : choice variants (.map [(k, u)]) =
          (variant variants k).bind fun a => (unit u).bind fun _ => .ok a := rfl
      rw [hc]
      cases hk : variant variants k <;> cases hu : unit u <;> simp [Except.bind, hk, hu]
    | _ :: _ :: _ => simp [choice]
  | _ => simp [choice, mismatch]

theorem mapM_eq_ok {item : Decode α} {vs : List Value} {as : List α} :
    vs.mapM item = .ok as ↔ List.Forall₂ (fun v a => item v = .ok a) vs as := by
  induction vs generalizing as with
  | nil => simp [pure, Except.pure, eq_comm]
  | cons v vs ih =>
    rw [List.mapM_cons, List.forall₂_cons_left_iff]
    simp only [← ih]
    cases item v with
    | error f => simp [bind, Except.bind]
    | ok a => cases vs.mapM item <;> simp [bind, Except.bind, pure, Except.pure, eq_comm]

theorem list_eq_ok {item : Decode α} {v : Value} {as : List α} :
    list item v = .ok as ↔ ∃ vs, v = .list vs ∧ List.Forall₂ (fun v a => item v = .ok a) vs as := by
  cases v with
  | list vs => simp [list, mapM_eq_ok]
  | _ => simp [list, mismatch]

end InitializerLint.Data.Decode
