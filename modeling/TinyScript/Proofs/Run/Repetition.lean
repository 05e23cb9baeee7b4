import TinyScript.Proofs.Number.Exact
import TinyScript.Proofs.Run.Equations

/-!
# Counted loops

A counted loop evaluates its count before the first round and never again. If the count is a natural
number, the loop does what that many blocks do that stand one behind the other
(`counted_loop_unrolled`), whatever a round does to the variables in the count.
-/

namespace TinyScript

/-! ## Counts of rounds -/

namespace Number

/-- Not a number, infinite, negative or between two integers. -/
def IsNoCount (x : Number) : Prop :=
  x.isNaN = true ∨ x.IsInfinite ∨ (x.IsFinite ∧ x.value < 0) ∨ x.IsFractional

theorem IsNoCount.value_ne {x : Number} (h : x.IsNoCount) (hfinite : x.IsFinite) (n : Nat) :
    x.value ≠ n := by
  intro hvalue
  rcases h with hnan | hinfinite | ⟨-, hnegative⟩ | hfractional
  · exact hfinite.not_isNaN hnan
  · exact Nat.ne_of_lt hfinite hinfinite
  · rw [hvalue] at hnegative
    exact absurd (Nat.cast_nonneg n) hnegative.not_ge
  · exact hfractional.2 n hvalue

theorem isNoCount_of_count_ne {x : Number} (h : ∀ n : Nat, x.count ≠ .integer n) :
    x.IsNoCount := by
  rcases hcount : x.count with (n | n) | _ | _
  · exact absurd hcount (h n)
  · obtain ⟨hfinite, hvalue⟩ := count_eq_integer_iff.1 hcount
    refine .inr (.inr (.inl ⟨hfinite, ?_⟩))
    rw [hvalue]
    exact Int.cast_lt_zero.2 (Int.negSucc_lt_zero n)
  · exact .inr (.inl (count_eq_infinite_iff.1 hcount))
  · rcases count_eq_none_iff.1 hcount with hnan | hfractional
    · exact .inl hnan
    · exact .inr (.inr (.inr hfractional))

end Number

theorem repeatRounds_number (x : Number) :
    (x.IsNoCount ∧ repeatRounds (.number x) = .failRunning (.invalidRepeatCount x)) ∨
      ∃ n : Nat, x.IsFinite ∧ x.value = n ∧
        repeatRounds (.number x) = pure (min n maxRounds) := by
  by_cases hcount : ∃ n : Nat, x.count = .integer n
  · obtain ⟨n, hn⟩ := hcount
    obtain ⟨hfinite, hvalue⟩ := Number.count_eq_integer_iff.1 hn
    refine .inr ⟨n, hfinite, by exact_mod_cast hvalue, ?_⟩
    rw [repeatRounds, hn]
  · rw [not_exists] at hcount
    refine .inl ⟨Number.isNoCount_of_count_ne hcount, ?_⟩
    rw [repeatRounds]
    split
    · next n hn => exact absurd hn (hcount n)
    · rfl

/-! ## Rounds -/

/-- How rounds follow each other: each begins where the one before it left off, up to the first that
returns a value or does not come to its end. -/
inductive Rounds (body : Action Flow) : Nat → Context → Outcome Flow → Context → Prop
  | finished {context : Context} : Rounds body 0 context (.done .completed) context
  | stops {rounds : Nat} {context after : Context} {outcome : Outcome Flow}
      (hround : body context = (outcome, after)) (hstop : outcome ≠ .done .completed) :
      Rounds body (rounds + 1) context outcome after
  | goesOn {rounds : Nat} {context middle after : Context} {outcome : Outcome Flow}
      (hround : body context = (.done .completed, middle))
      (hrest : Rounds body rounds middle outcome after) :
      Rounds body (rounds + 1) context outcome after

theorem Rounds.of_times {body : Action Flow} {rounds : Nat} {context after : Context}
    {outcome : Outcome Flow} (h : Flow.times body rounds context = (outcome, after)) :
    Rounds body rounds context outcome after := by
  induction rounds generalizing context with
  | zero =>
      cases h
      exact .finished
  | succ rounds ih =>
      dsimp only [Flow.times] at h
      rcases hround : body context with ⟨⟨_ | value⟩ | error | _, middle⟩
      · rw [hround] at h
        exact .goesOn hround (ih h)
      all_goals
        rw [hround] at h
        cases h
        exact .stops hround nofun

theorem times_eq_executeAll (execute : Statement → Action Flow) (statement : Statement)
    (rounds : Nat) :
    Flow.times (execute statement) rounds =
      executeAll execute (List.replicate rounds statement) := by
  induction rounds with
  | zero => rfl
  | succ rounds ih => rw [Flow.times_succ, List.replicate_succ, executeAll, ih]

/-! ## Loops -/

theorem execute_repeat (bound : Nat) (count : Expr) (body : Block) (context : Context) :
    execute (bound + 1) (.repeat count body) context =
      match evaluate bound count context with
      | (.done value, after) =>
        (repeatRounds value >>= Flow.times (execute (bound + 1) (.block body))) after
      | (.failed error, after) => (.failed error, after)
      | (.unfinished, after) => (.unfinished, after) := by
  change (evaluate bound count >>= fun value =>
    repeatRounds value >>= Flow.times (executeBlock (execute bound) body)) context = _
  rw [Action.bind_eq]
  rcases evaluate bound count context with ⟨value | error | _, after⟩ <;> rfl

/-- A counted loop begins with its count. If this has no value, the loop ends with it. If the value
is no number or no count, the loop fails and no round is run. If it is a natural number, minus zero
among them, the loop does what so many blocks do, one behind the other, up to the first that returns
a value or fails. -/
theorem counted_loop_unrolled (bound : Nat) (count : Expr) (body : Block) (context : Context) :
    let run := execute (bound + 1) (.repeat count body) context
    match evaluate bound count context with
    | (.done (.number x), after) =>
        (x.IsNoCount ∧ run = (.failed (.running (.invalidRepeatCount x)), after)) ∨
          ∃ n : Nat, x.IsFinite ∧ x.value = n ∧
            run = executeAll (execute (bound + 1))
              (List.replicate (min n (2 ^ 64 - 1)) (.block body)) after ∧
            Rounds (execute (bound + 1) (.block body)) (min n (2 ^ 64 - 1)) after run.1 run.2
    | (.done value, after) =>
        run = (.failed (.running (.typeMismatch "repeat" "number" value.kind)), after)
    | (.failed error, after) => run = (.failed error, after)
    | (.unfinished, after) => run = (.unfinished, after) := by
  intro run
  have hrun : run = _ := execute_repeat bound count body context
  generalize evaluate bound count context = counted at hrun ⊢
  rcases counted with ⟨(x | _ | _ | _ | _) | error | _, after⟩
  · dsimp only at hrun ⊢
    rcases repeatRounds_number x with ⟨hno, hrounds⟩ | ⟨n, hfinite, hvalue, hrounds⟩
    · rw [hrounds] at hrun
      exact .inl ⟨hno, hrun⟩
    · rw [hrounds] at hrun
      replace hrun : run = Flow.times (execute (bound + 1) (.block body)) (min n (2 ^ 64 - 1))
        after := hrun
      refine .inr ⟨n, hfinite, hvalue, ?_, ?_⟩
      · rw [hrun, times_eq_executeAll]
      · exact .of_times hrun.symm
  all_goals exact hrun

/-- A number and minus zero in variables. -/
def countsContext : Context where
  memory :=
    ⟨{ bindings := ⟨[("n", some (.number (.ofNat 2))),
        ("z", some (.number (.ofMagnitude true 0)))]⟩ }, []⟩

/-- The first round takes the number away that was counted. -/
def forgetfulBody : Block :=
  [.assign ⟨"n"⟩ (.simple ⟨"'a'"⟩), .print (.simple ⟨"n"⟩)]

theorem counted_loop_keeps_count :
    execute 4 (.repeat (.simple ⟨"n"⟩) forgetfulBody) countsContext =
        executeAll (execute 4) [.block forgetfulBody, .block forgetfulBody] countsContext ∧
      (execute 4 (.repeat (.simple ⟨"n"⟩) forgetfulBody) countsContext).2.sink.text = "a\na\n" ∧
      execute 4 (.repeat (.simple ⟨"z"⟩) forgetfulBody) countsContext =
        (.done .completed, countsContext) := by
  have hn : evaluate 3 (.simple ⟨"n"⟩) countsContext =
      (.done (.number (.ofNat 2)), countsContext) :=
    evaluate_variable (by decide +kernel) rfl 2
  have hz : evaluate 3 (.simple ⟨"z"⟩) countsContext =
      (.done (.number (.ofMagnitude true 0)), countsContext) :=
    evaluate_variable (by decide +kernel) rfl 2
  have htwo : (Number.ofNat 2).value = (2 : Nat) := Number.value_ofNat_of_le (by decide)
  have hzero : (Number.ofMagnitude true 0).value = (0 : Nat) :=
    Number.value_of_magnitude_eq_zero (by decide)
  have hfirst := counted_loop_unrolled 3 (.simple ⟨"n"⟩) forgetfulBody countsContext
  have hsecond := counted_loop_unrolled 3 (.simple ⟨"z"⟩) forgetfulBody countsContext
  rw [hn] at hfirst
  rw [hz] at hsecond
  refine ⟨?_, by decide +kernel, ?_⟩
  · rcases hfirst with ⟨hno, -⟩ | ⟨rounds, -, hvalue, hrun, -⟩
    · exact absurd htwo (hno.value_ne (Number.isFinite_ofNat (by decide)) 2)
    · obtain rfl : rounds = 2 := Nat.cast_injective (hvalue.symm.trans htwo)
      exact hrun
  · rcases hsecond with ⟨hno, -⟩ | ⟨rounds, -, hvalue, hrun, -⟩
    · exact absurd hzero (hno.value_ne (.of_magnitude_eq_zero (by decide)) 0)
    · obtain rfl : rounds = 0 := Nat.cast_injective (hvalue.symm.trans hzero)
      exact hrun

end TinyScript
