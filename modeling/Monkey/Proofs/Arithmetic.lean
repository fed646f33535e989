import Monkey.Eval
import Mathlib

/-!
# Integer operators wrap around

Integers are 32-bit two's-complement words. Addition, subtraction, multiplication and negation
give the exact result reduced modulo 2^32 into [-2^31, 2^31), and division the quotient truncated
toward zero, reduced the same way: the one quotient past the range, -2147483648 / -1, wraps back
to -2147483648, as negating -2147483648 does. A zero divisor is the only failure; it is fatal in
both modes, and its message names the dividend. The comparisons are those of the integers.

`binary_int_run` says what an operator does to two integers, whatever the mode, and
`expr_binop_normal` and `expr_unop_normal` that an operation whose operands evaluate normally
applies its operator to their values. `int_operators_wrap` puts them together for operands that
evaluate to integers.
-/

set_option autoImplicit false
set_option relaxedAutoImplicit false

namespace Monkey

namespace Eval

/-- A run ends normally, leaving the machine `m`, with the 32-bit integer that `n` reduces to
modulo 2^32 in [-2^31, 2^31). -/
def Wraps (r : EStateM.Result EvalError Machine (Completion Value)) (n : Int) (m : Machine) :
    Prop :=
  ∃ c : Int32, r = .ok (.normal (.int c)) m ∧ c.toInt = n.bmod (2 ^ 32)

variable {cfg : Config} {budget : Nat} {env : FrameId} {m m₁ m₂ : Machine}

theorem binary_int_run (cfg : Config) (op : BinOp) (a b : Int32) (m : Machine) :
    (binary cfg op (.int a) (.int b)).run m =
      match intBinary op a b with
      | .ok v => .ok v m
      | .error e => .error e m := by
  simp only [binary]
  cases intBinary op a b <;> rfl

theorem expr_binop_normal {op : BinOp} {l r : Expr} {lv rv : Value}
    (left : (expr cfg budget env l).run m = .ok (.normal lv) m₁)
    (right : (expr cfg budget env r).run m₁ = .ok (.normal rv) m₂) :
    (expr cfg (budget + 1) env (.binop op l r)).run m =
      (binary cfg op lv rv >>= fun v => pure (.normal v)).run m₂ := by
  rw [expr, EStateM.run_bind, left]
  dsimp only
  rw [EStateM.run_bind, right]

theorem expr_unop_normal {op : UnOp} {arg : Expr} {v : Value}
    (operand : (expr cfg budget env arg).run m = .ok (.normal v) m₁) :
    (expr cfg (budget + 1) env (.unop op arg)).run m =
      (unary cfg op v >>= fun w => pure (.normal w)).run m₁ := by
  rw [expr, EStateM.run_bind, operand]

theorem divisionByZero_message (a : Int32) :
    (EvalError.divisionByZero a).message =
      "RUNTIME ERROR: division by zero: " ++ toString a.toInt ++ " / 0" := by
  have detail : (EvalError.divisionByZero a).detail = toString a.toInt ++ " / 0" := rfl
  have shown : ¬ (toString a.toInt ++ " / 0").isEmpty = true := by
    simp
  -- joined by hand: unfolding the detail inside simp makes it slow
  have lead : "RUNTIME ERROR: " ++ ("division by zero" ++ ": ") =
      "RUNTIME ERROR: division by zero: " := by
    decide
  unfold EvalError.message EvalError.described
  rw [detail, if_neg shown, ← lead]
  simp only [String.append_assoc]
  rfl

end Eval

open Eval

/-- For operands that evaluate to the 32-bit integers `a` and `b`, in either mode: `+`, `-` and
`*` give the exact result reduced modulo 2^32 into [-2^31, 2^31); `/` by a non-zero `b` gives the
quotient truncated toward zero, reduced the same way, and never fails; `/` by zero fails with a
division by zero whose message is `<a> / 0`; `-a` gives `-a` reduced the same way; and `<`, `>`,
`==`, `!=` compare as the integers do. -/
theorem int_operators_wrap {cfg : Config} {budget : Nat} {env : FrameId} {m m₁ m₂ : Machine}
    {l r : Expr} {a b : Int32}
    (left : (expr cfg budget env l).run m = .ok (.normal (.int a)) m₁)
    (right : (expr cfg budget env r).run m₁ = .ok (.normal (.int b)) m₂) :
    Wraps ((expr cfg (budget + 1) env (.binop .add l r)).run m) (a.toInt + b.toInt) m₂ ∧
    Wraps ((expr cfg (budget + 1) env (.binop .sub l r)).run m) (a.toInt - b.toInt) m₂ ∧
    Wraps ((expr cfg (budget + 1) env (.binop .mul l r)).run m) (a.toInt * b.toInt) m₂ ∧
    (b ≠ 0 →
      Wraps ((expr cfg (budget + 1) env (.binop .div l r)).run m) (a.toInt.tdiv b.toInt) m₂) ∧
    (b = 0 →
      (expr cfg (budget + 1) env (.binop .div l r)).run m = .error (.divisionByZero a) m₂ ∧
      (EvalError.divisionByZero a).kind = .divisionByZero ∧
      (EvalError.divisionByZero a).message =
        "RUNTIME ERROR: division by zero: " ++ toString a.toInt ++ " / 0") ∧
    Wraps ((expr cfg (budget + 1) env (.unop .neg l)).run m) (-a.toInt) m₁ ∧
    (expr cfg (budget + 1) env (.binop .lt l r)).run m =
      .ok (.normal (.bool (decide (a.toInt < b.toInt)))) m₂ ∧
    (expr cfg (budget + 1) env (.binop .gt l r)).run m =
      .ok (.normal (.bool (decide (b.toInt < a.toInt)))) m₂ ∧
    (expr cfg (budget + 1) env (.binop .eq l r)).run m =
      .ok (.normal (.bool (decide (a.toInt = b.toInt)))) m₂ ∧
    (expr cfg (budget + 1) env (.binop .ne l r)).run m =
      .ok (.normal (.bool (decide (a.toInt ≠ b.toInt)))) m₂ := by
  -- every operation applies `intBinary` to the two values, in the machine the operands leave
  have run : ∀ op, (expr cfg (budget + 1) env (.binop op l r)).run m =
      match intBinary op a b with
      | .ok v => .ok (.normal v) m₂
      | .error e => .error e m₂ := by
    intro op
    rw [expr_binop_normal left right, EStateM.run_bind, binary_int_run]
    cases intBinary op a b <;> rfl
  have same : (a == b) = decide (a.toInt = b.toInt) := by
    rw [Bool.eq_iff_iff, beq_iff_eq, decide_eq_true_iff, Int32.toInt_inj]
  refine ⟨⟨a + b, run .add, Int32.toInt_add a b⟩, ⟨a - b, run .sub, Int32.toInt_sub a b⟩,
    ⟨a * b, run .mul, Int32.toInt_mul a b⟩, fun nonzero => ⟨a / b, ?_, Int32.toInt_div a b⟩,
    fun zero => ⟨?_, rfl, divisionByZero_message a⟩, ⟨-a, ?_, Int32.toInt_neg a⟩, ?_, ?_, ?_, ?_⟩
  · rw [run .div]
    simp [intBinary, nonzero]
  · rw [run .div, zero]
    rfl
  · rw [expr_unop_normal left]
    rfl
  · rw [run .lt]
    simp [intBinary, Int32.lt_iff_toInt_lt]
  · rw [run .gt]
    simp [intBinary, Int32.lt_iff_toInt_lt]
  · rw [run .eq]
    simp [intBinary, same]
  · rw [run .ne]
    simp [intBinary, bne, same]

/-- The quotient past the range wraps back: `-2147483648 / -1` is `-2147483648`, the operands
here being literals. -/
theorem min_div_neg_one_wraps :
    (expr {} 0 0 (.int Int32.minValue)).run {} = .ok (.normal (.int Int32.minValue)) {} ∧
    (expr {} 0 0 (.int (-1))).run {} = .ok (.normal (.int (-1))) {} ∧
    (Int32.minValue.toInt.tdiv (-1 : Int32).toInt).bmod (2 ^ 32) = -2147483648 ∧
    Wraps ((expr {} 1 0 (.binop .div (.int Int32.minValue) (.int (-1)))).run {})
      (Int32.minValue.toInt.tdiv (-1 : Int32).toInt) {} := by
  have left : (expr {} 0 0 (.int Int32.minValue)).run {} =
      .ok (.normal (.int Int32.minValue)) {} := by
    rw [expr]
    rfl
  have right : (expr {} 0 0 (.int (-1))).run {} = .ok (.normal (.int (-1))) {} := by
    rw [expr]
    rfl
  have nonzero : (-1 : Int32) ≠ 0 := by decide
  exact ⟨left, right, by decide, (int_operators_wrap left right).2.2.2.1 nonzero⟩

end Monkey
