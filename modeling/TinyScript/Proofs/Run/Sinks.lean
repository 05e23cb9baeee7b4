import Mathlib.Logic.Function.Iterate
import TinyScript.Proofs.Run.Congruence

/-!
# Runs into a full sink

A line that the sink refuses ends the run. Up to there it goes the way it goes with a sink that
never fails, and behind that only scopes are left (`full_sink_ends_run`). To say what happens behind
the line that is refused, the same run is looked at with anything else in place of the refusal
(`executeWith`, `Action.printOr`): that comes out of the run as it is, but for the scopes.
-/

namespace TinyScript

/-! ## Sinks -/

namespace Sink

/-- The pieces received when lines have been printed, the latest first. -/
def printed (lines written : List String) : List String :=
  lines.foldl (fun pieces line => "\n" :: line :: pieces) written

theorem printed_append (lines more written : List String) :
    printed (lines ++ more) written = printed more (printed lines written) :=
  List.foldl_append

def NeverFails (sink : Sink) : Prop :=
  ∀ pieces, sink.accepts pieces = true

/-- The sink takes that many lines, whatever they are. Of a further one it takes nothing. -/
def TakesLines : Nat → Sink → Prop
  | 0, sink => ∀ piece, sink.write? piece = none
  | count + 1, sink => ∀ line, ∃ middle after,
    sink.write? line = some middle ∧ middle.write? "\n" = some after ∧ TakesLines count after

theorem written_of_write? {sink after : Sink} {piece : String}
    (h : sink.write? piece = some after) : after.written = piece :: sink.written := by
  unfold write? at h
  split at h
  · cases h
    rfl
  · cases h

theorem count_feeds_printed {lines : List String} (h : ∀ line ∈ lines, '\n' ∉ line.toList)
    (written : List String) :
    ((printed lines written).flatMap String.toList).count '\n' =
      (written.flatMap String.toList).count '\n' + lines.length := by
  induction lines generalizing written with
  | nil => rfl
  | cons line lines ih =>
      have hline : line.toList.count '\n' = 0 := List.count_eq_zero.2 (h line (by simp))
      have hrest := ih (fun other hother => h other (by simp [hother])) ("\n" :: line :: written)
      change ((printed lines ("\n" :: line :: written)).flatMap String.toList).count '\n' = _
      simp only [List.flatMap_cons, List.count_append, hline] at hrest
      rw [hrest, List.length_cons, show "\n".toList.count '\n' = 1 from rfl]
      omega

/-- A sink up to a number of line feeds takes that number of lines, if these have none of their own.
Of a further one it takes nothing. -/
theorem write?_upToLines {limit : Nat} {lines : List String}
    (h : ∀ line ∈ lines, '\n' ∉ line.toList) (piece : String) :
    let sink := { upToLines limit with written := printed lines [] }
    sink.write? piece =
      if lines.length < limit then some { sink with written := piece :: sink.written }
      else none := by
  have hcount := count_feeds_printed h []
  rw [List.flatMap_nil, List.count_nil, Nat.zero_add] at hcount
  simp only [write?, upToLines, hcount, decide_eq_true_eq]

theorem NeverFails.write? {sink : Sink} (h : sink.NeverFails) (piece : String) :
    sink.write? piece = some { sink with written := piece :: sink.written } := by
  rw [Sink.write?, if_pos (h sink.written)]

end Sink

theorem Action.printLine_of_write? {sink middle after : Sink} {line : String} {context : Context}
    (hline : sink.write? line = some middle) (hfeed : middle.write? "\n" = some after) :
    printLine line { context with sink } = (.done (), { context with sink := after }) := by
  change Action.bind (write line) _ _ = _
  unfold Action.bind write
  simp only [hline, hfeed]

theorem Action.printLine_of_full {context : Context} (h : context.sink.TakesLines 0)
    (line : String) : printLine line context = (.failed (.channel .sinkFull), context) := by
  change Action.bind (write line) _ _ = _
  unfold Action.bind write
  rw [h line]

/-! ## Runs with another way of printing -/

mutual

/-- Evaluates with another way of printing lines. -/
def evaluateWith (print : String → Action Unit) : Nat → Expr → Action Value
  | 0, _ => Action.unfinished
  | bound + 1, expr => evaluateStep (evaluateWith print bound) (executeWith print bound) expr

/-- Executes with another way of printing lines. -/
def executeWith (print : String → Action Unit) : Nat → Statement → Action Flow
  | 0, _ => Action.unfinished
  | bound + 1, statement =>
    executeStep print (evaluateWith print bound) (executeWith print bound) bound statement

end

theorem with_printLine (bound : Nat) :
    evaluateWith Action.printLine bound = evaluate bound ∧
      executeWith Action.printLine bound = execute bound := by
  induction bound with
  | zero => exact ⟨funext fun _ => by rw [evaluateWith, evaluate],
      funext fun _ => by rw [executeWith, execute]⟩
  | succ bound ih =>
      obtain ⟨hevaluate, hexecute⟩ := ih
      constructor
      · funext expr
        rw [evaluateWith, hevaluate, hexecute, evaluate_succ_eq]
      · funext statement
        rw [executeWith, hevaluate, hexecute, execute_succ_eq]

/-- Prints a line. If this fails, there is another error and another context behind it. -/
def Action.printOr (refused : String → Context → Error × Context) (line : String) : Action Unit :=
  fun context =>
    match printLine line context with
    | (.done _, after) => (.done (), after)
    | _ => (.failed (refused line context).1, (refused line context).2)

/-- Leaves scopes, the innermost first. -/
def Context.release (scopes : Nat) (context : Context) : Context :=
  { context with memory := Memory.endScope^[scopes] context.memory }

theorem Context.release_release (scopes : Nat) (context : Context) :
    (context.release scopes).release 1 = context.release (scopes + 1) := by
  have hmemory := Function.iterate_succ_apply' Memory.endScope scopes context.memory
  exact congrArg (fun memory => { context with memory }) hmemory.symm

/-! ## Runs up to a refusal -/

section

variable {α β : Type} {refused : String → Context → Error × Context} {lines more : List String}
  {limited : Sink} {count : Nat} {unlimited run replaced : Outcome α × Context}
  {first run' : Outcome β × Context}

/-- The sink has taken all lines, and the run has gone the way of the unlimited one. -/
structure PrintsAll (lines : List String) (limited : Sink) (count : Nat)
    (unlimited run : Outcome α × Context) : Prop where
  length_le : lines.length ≤ count
  outcome : run.1 = unlimited.1
  context : run.2 = { unlimited.2 with sink := run.2.sink }
  written : run.2.sink.written = Sink.printed lines limited.written
  takes : run.2.sink.TakesLines (count - lines.length)

/-- The line behind those that the sink takes was refused at a place of the run, which has ended
with this, and so has the one with a replacement of the refusal. -/
structure IsRefused (refused : String → Context → Error × Context) (lines : List String)
    (limited : Sink) (count : Nat) (run replaced : Outcome α × Context) (line : String)
    (place : Context) (scopes : Nat) : Prop where
  next : lines[count]? = some line
  full : place.sink.TakesLines 0
  written : place.sink.written = Sink.printed (lines.take count) limited.written
  run_eq : run = (.failed (.channel .sinkFull), place.release scopes)
  replaced_eq : replaced = (.failed (refused line place).1, (refused line place).2.release scopes)

/-- The action prints lines. A sink that takes them all makes no difference but for what it has
received, and one that does not ends the action and the other one. -/
def Action.StopsAtRefusal (refused : String → Context → Error × Context)
    (action other : Action α) : Prop :=
  ∀ (context : Context) (free : Sink), free.NeverFails → ∃ lines,
    let unlimited := action { context with sink := free }
    unlimited.2.sink.NeverFails ∧
      unlimited.2.sink.written = Sink.printed lines free.written ∧
      ∀ (limited : Sink) (count : Nat), limited.TakesLines count →
        let run := action { context with sink := limited }
        let replaced := other { context with sink := limited }
        PrintsAll lines limited count unlimited run ∧ replaced = run ∨
          ∃ line place scopes, IsRefused refused lines limited count run replaced line place scopes

/-! ## What comes after the refusal -/

/-- More lines are behind those that the sink takes. -/
theorem IsRefused.append {line : String} {place : Context} {scopes : Nat}
    (h : IsRefused refused lines limited count run replaced line place scopes)
    (more : List String) :
    IsRefused refused (lines ++ more) limited count run replaced line place scopes := by
  obtain ⟨hcount, -⟩ := List.getElem?_eq_some_iff.1 h.next
  refine ⟨?_, h.full, ?_, h.run_eq, h.replaced_eq⟩
  · rw [List.getElem?_append_left hcount, h.next]
  · rw [List.take_append_of_le_length (Nat.le_of_lt hcount), h.written]

/-- Lines that the sink takes are before the others. -/
theorem PrintsAll.isRefused {line : String} {place : Context} {scopes : Nat}
    (h : PrintsAll lines limited count first run')
    (hmore : IsRefused refused more run'.2.sink (count - lines.length) run replaced line place
      scopes) :
    IsRefused refused (lines ++ more) limited count run replaced line place scopes := by
  refine ⟨?_, hmore.full, ?_, hmore.run_eq, hmore.replaced_eq⟩
  · rw [List.getElem?_append_right h.length_le, hmore.next]
  · rw [List.take_append, List.take_of_length_le h.length_le, Sink.printed_append, hmore.written,
      h.written]

theorem PrintsAll.append (h : PrintsAll lines limited count first run')
    (hmore : PrintsAll more run'.2.sink (count - lines.length) unlimited run) :
    PrintsAll (lines ++ more) limited count unlimited run where
  length_le := by
    have hlines := h.length_le
    have hlength := hmore.length_le
    rw [List.length_append]
    omega
  outcome := hmore.outcome
  context := hmore.context
  written := by rw [Sink.printed_append, hmore.written, h.written]
  takes := by
    rw [List.length_append, Nat.sub_add_eq]
    exact hmore.takes

/-- Runs that agree may end in any one way. -/
theorem PrintsAll.ending (h : PrintsAll lines limited count first run') (outcome : Outcome α) :
    PrintsAll lines limited count (outcome, first.2) (outcome, run'.2) :=
  ⟨h.length_le, rfl, h.context, h.written, h.takes⟩

theorem IsRefused.bind {action other : Action α} {next continued : α → Action β}
    {context : Context} {line : String} {place : Context} {scopes : Nat}
    (h : IsRefused refused lines limited count (action context) (other context) line place scopes) :
    IsRefused refused lines limited count ((action >>= next) context)
      ((other >>= continued) context) line place scopes where
  next := h.next
  full := h.full
  written := h.written
  run_eq := by rw [Action.bind_eq, h.run_eq]
  replaced_eq := by rw [Action.bind_eq, h.replaced_eq]

namespace Action

theorem StopsAtRefusal.bind {action other : Action α} {next continued : α → Action β}
    (haction : action.StopsAtRefusal refused other)
    (hnext : ∀ result, (next result).StopsAtRefusal refused (continued result)) :
    (action >>= next).StopsAtRefusal refused (other >>= continued) := by
  intro context free hfree
  obtain ⟨lines, hfree, hwritten, hruns⟩ := haction context free hfree
  rw [bind_eq]
  -- Where the unlimited action goes on, the limited one goes on or was refused a line. Where it
  -- ends, the limited one ends in the same way or was refused a line.
  rcases hunlimited : action { context with sink := free } with ⟨result | error | _, middle⟩
  · rw [hunlimited] at hfree hwritten hruns
    obtain ⟨more, hfree, hmore, hnexts⟩ := hnext result middle middle.sink hfree
    rw [hwritten, ← Sink.printed_append] at hmore
    refine ⟨lines ++ more, hfree, hmore, fun limited count htakes => ?_⟩
    obtain ⟨hall, hsame⟩ | ⟨line, place, scopes, hrefused⟩ := hruns limited count htakes
    · rcases hrun : action { context with sink := limited } with ⟨outcome, after⟩
      rw [hrun] at hall hsame
      obtain rfl : outcome = .done result := hall.outcome
      have hafter : after = { middle with sink := after.sink } := hall.context
      have hthen := hnexts after.sink (count - lines.length) hall.takes
      rw [bind_eq, bind_eq, hrun, hsame]
      rw [← hafter] at hthen
      obtain ⟨hboth, hsame⟩ | ⟨line, place, scopes, hrefused⟩ := hthen
      · exact .inl ⟨hall.append hboth, hsame⟩
      · exact .inr ⟨line, place, scopes, hall.isRefused hrefused⟩
    · exact .inr ⟨line, place, scopes, (hrefused.append more).bind⟩
  · rw [hunlimited] at hfree hwritten hruns
    refine ⟨lines, hfree, hwritten, fun limited count htakes => ?_⟩
    obtain ⟨hall, hsame⟩ | ⟨line, place, scopes, hrefused⟩ := hruns limited count htakes
    · rcases hrun : action { context with sink := limited } with ⟨outcome, after⟩
      rw [hrun] at hall hsame
      obtain rfl : outcome = .failed error := hall.outcome
      rw [bind_eq, bind_eq, hrun, hsame]
      exact .inl ⟨hall.ending _, rfl⟩
    · exact .inr ⟨line, place, scopes, hrefused.bind⟩
  · rw [hunlimited] at hfree hwritten hruns
    refine ⟨lines, hfree, hwritten, fun limited count htakes => ?_⟩
    obtain ⟨hall, hsame⟩ | ⟨line, place, scopes, hrefused⟩ := hruns limited count htakes
    · rcases hrun : action { context with sink := limited } with ⟨outcome, after⟩
      rw [hrun] at hall hsame
      obtain rfl : outcome = .unfinished := hall.outcome
      rw [bind_eq, bind_eq, hrun, hsame]
      exact .inl ⟨hall.ending _, rfl⟩
    · exact .inr ⟨line, place, scopes, hrefused.bind⟩

/-- An action that does not touch the sink prints nothing. -/
theorem stopsAtRefusal_of_quiet {action : Action α}
    (h : ∀ context sink, action { context with sink } =
      ((action context).1, { (action context).2 with sink })) :
    action.StopsAtRefusal refused action := by
  intro context free hfree
  refine ⟨[], ?_, ?_, fun limited count htakes => .inl ⟨⟨?_, ?_, ?_, ?_, ?_⟩, rfl⟩⟩
  · rw [h]
    exact hfree
  · rw [h]
    rfl
  · exact Nat.zero_le count
  · rw [h, h context free]
  · rw [h, h context free]
  · rw [h]
    rfl
  · rw [h]
    exact htakes

theorem stopsAtRefusal_printLine (line : String) :
    (printLine line).StopsAtRefusal refused (printOr refused line) := by
  intro context free hfree
  have hline := hfree.write? line
  have hafter : Sink.NeverFails { free with written := line :: free.written } := hfree
  rw [printLine_of_write? hline (hafter.write? "\n")]
  refine ⟨[line], hfree, rfl, fun limited count htakes => ?_⟩
  cases count with
  | zero =>
      have hfull : printLine line { context with sink := limited } =
          (.failed (.channel .sinkFull), { context with sink := limited }) :=
        printLine_of_full htakes line
      refine .inr ⟨line, { context with sink := limited }, 0, ⟨rfl, htakes, rfl, hfull, ?_⟩⟩
      rw [printOr, hfull]
      rfl
  | succ count =>
      obtain ⟨middle, after, hline, hfeed, hleft⟩ := htakes line
      have hwritten := Sink.written_of_write? hfeed
      rw [Sink.written_of_write? hline] at hwritten
      rw [printOr, printLine_of_write? hline hfeed]
      exact .inl ⟨⟨Nat.succ_le_succ (Nat.zero_le count), rfl, rfl, hwritten, hleft⟩, rfl⟩

theorem StopsAtRefusal.inScope {action other : Action α} (enter : Memory → Memory)
    (h : action.StopsAtRefusal refused other) :
    (inScope enter action).StopsAtRefusal refused (inScope enter other) := by
  intro context free hfree
  obtain ⟨lines, hfree, hwritten, hruns⟩ :=
    h { context with memory := enter context.memory } free hfree
  refine ⟨lines, hfree, hwritten, fun limited count htakes => ?_⟩
  obtain ⟨hall, hsame⟩ | ⟨line, place, scopes, hrefused⟩ := hruns limited count htakes
  · have hcontext := congrArg (Context.release 1) hall.context
    have hleft := congrArg (fun result => (result.1, result.2.release 1)) hsame
    exact .inl ⟨⟨hall.length_le, hall.outcome, hcontext, hall.written, hall.takes⟩, hleft⟩
  · have hrun := congrArg (fun result => (result.1, result.2.release 1)) hrefused.run_eq
    have hreplaced := congrArg (fun result => (result.1, result.2.release 1)) hrefused.replaced_eq
    dsimp only at hrun hreplaced
    rw [Context.release_release] at hrun hreplaced
    exact .inr ⟨line, place, scopes + 1, ⟨hrefused.next, hrefused.full, hrefused.written, hrun,
      hreplaced⟩⟩

theorem uniform_stopsAtRefusal (refused : String → Context → Error × Context) :
    Uniform fun _ action other => action.StopsAtRefusal refused other where
  pure _ := stopsAtRefusal_of_quiet fun _ _ => rfl
  bind := .bind
  unfinished := stopsAtRefusal_of_quiet fun _ _ => rfl
  failRunning _ := stopsAtRefusal_of_quiet fun _ _ => rfl
  getMemory := stopsAtRefusal_of_quiet fun _ _ => rfl
  getFunctions := stopsAtRefusal_of_quiet fun _ _ => rfl
  lookup name := by
    apply stopsAtRefusal_of_quiet
    intro context sink
    unfold Action.lookup
    cases context.memory.lookup name <;> rfl
  declare _ := stopsAtRefusal_of_quiet fun _ _ => rfl
  store name value := by
    apply stopsAtRefusal_of_quiet
    intro context sink
    unfold Action.store
    cases context.memory.store name value <;> rfl
  register _ := stopsAtRefusal_of_quiet fun _ _ => rfl
  inScope := .inScope

end Action

end

theorem stopsAtRefusal_run (refused : String → Context → Error × Context) (bound : Nat) :
    (∀ expr, (evaluate bound expr).StopsAtRefusal refused
      (evaluateWith (Action.printOr refused) bound expr)) ∧
    ∀ statement, (execute bound statement).StopsAtRefusal refused
      (executeWith (Action.printOr refused) bound statement) := by
  have huniform := Action.uniform_stopsAtRefusal refused
  induction bound with
  | zero =>
      constructor
      · intro expr
        rw [evaluate, evaluateWith]
        exact huniform.unfinished
      · intro statement
        rw [execute, executeWith]
        exact huniform.unfinished
  | succ bound ih =>
      obtain ⟨hevaluate, hexecute⟩ := ih
      constructor
      · intro expr
        rw [evaluate_succ_eq, evaluateWith]
        exact huniform.evaluateStep hevaluate hexecute expr
      · intro statement
        rw [execute_succ_eq, executeWith]
        apply huniform.executeStep hevaluate hexecute
        · exact Action.stopsAtRefusal_printLine
        · exact fun hcondition hbody => huniform.whileTrue hcondition hbody bound

/-- Take a sink that never fails and one that takes a number of lines and then nothing more. If the
statement prints no more lines with the first sink, then with the second one it prints the same and
ends in the same way, with the same memory and the same functions. Otherwise it fails for the sink
when it is to print the first line beyond that number, with the lines before it printed, and all
that is done from there on is to leave the scopes that are open. For if something else is done there
instead, whatever it is, then the run ends with that, but for the scopes. -/
theorem full_sink_ends_run {free limited : Sink} {count : Nat} (hfree : free.NeverFails)
    (hlimited : limited.TakesLines count) (bound : Nat) (statement : Statement)
    (context : Context) (refused : String → Context → Error × Context) :
    let unlimited := execute bound statement { context with sink := free }
    let run := execute bound statement { context with sink := limited }
    executeWith Action.printLine bound statement = execute bound statement ∧
      ∃ lines, unlimited.2.sink.written = Sink.printed lines free.written ∧
        (lines.length ≤ count ∧ run.1 = unlimited.1 ∧ run.2.memory = unlimited.2.memory ∧
            run.2.functions = unlimited.2.functions ∧
            run.2.sink.written = Sink.printed lines limited.written ∨
          run.1 = .failed (.channel .sinkFull) ∧
            run.2.sink.written = Sink.printed (lines.take count) limited.written ∧
            ∃ line place scopes, lines[count]? = some line ∧
              Action.printLine line place = (.failed (.channel .sinkFull), place) ∧
              run.2 = place.release scopes ∧
              executeWith (Action.printOr refused) bound statement
                { context with sink := limited } =
                  (.failed (refused line place).1, (refused line place).2.release scopes)) := by
  intro unlimited run
  obtain ⟨lines, -, hwritten, hruns⟩ := (stopsAtRefusal_run refused bound).2 statement context free
    hfree
  refine ⟨congrFun (with_printLine bound).2 statement, lines, hwritten, ?_⟩
  obtain ⟨hall, -⟩ | ⟨line, place, scopes, hrefused⟩ := hruns limited count hlimited
  · left
    have hcontext : run.2 = { unlimited.2 with sink := run.2.sink } := hall.context
    have hmemory := congrArg Context.memory hcontext
    have hfunctions := congrArg Context.functions hcontext
    exact ⟨hall.length_le, hall.outcome, hmemory, hfunctions, hall.written⟩
  · right
    have hrun : run = _ := hrefused.run_eq
    refine ⟨congrArg Prod.fst hrun, ?_, line, place, scopes, hrefused.next, ?_,
      congrArg Prod.snd hrun, hrefused.replaced_eq⟩
    · rw [hrun]
      exact hrefused.written
    · exact Action.printLine_of_full hrefused.full line

/-- A sink that takes two lines. -/
def twoLines : Sink where
  accepts written := written.length < 4

/-- Prints within the arguments of a sum, in every round of a loop. -/
def printingSums : Statement :=
  let shown (number : String) : Expr := .call ⟨"show"⟩ [.simple ⟨number⟩]
  .block [
    .func ⟨"show"⟩ [⟨"x"⟩] [.print (.simple ⟨"x"⟩), .return (.simple ⟨"x"⟩)],
    .repeat (.simple ⟨"2"⟩) [.assign ⟨"sum"⟩ (.call ⟨"+"⟩ [shown "5", shown "7"])]]

/-- Another end than the failure: an error that tells the line, and no functions left. -/
def forgetting (line : String) (place : Context) : Error × Context :=
  (.running (.unassignedVariable line), { place with functions := ∅ })

theorem full_sink_ends_printingSums :
    Sink.unlimited.NeverFails ∧ twoLines.TakesLines 2 ∧
      (execute 9 printingSums { sink := .unlimited }).2.sink.text = "5\n7\n5\n7\n" ∧
      (execute 9 printingSums { sink := twoLines }).2.sink.text = "5\n7\n" ∧
      (execute 9 printingSums { sink := twoLines }).1 = .failed (.channel .sinkFull) ∧
      ∃ line place scopes,
        (execute 9 printingSums { sink := twoLines }).2 = place.release scopes ∧
          executeWith (Action.printOr forgetting) 9 printingSums { sink := twoLines } =
            (.failed (forgetting line place).1, (forgetting line place).2.release scopes) := by
  have hfree : Sink.unlimited.NeverFails := fun _ => rfl
  have hlimited : twoLines.TakesLines 2 :=
    fun _ => ⟨_, _, rfl, rfl, fun _ => ⟨_, _, rfl, rfl, fun _ => rfl⟩⟩
  have hdiffers : (execute 9 printingSums { sink := twoLines }).2.sink.written ≠
      (execute 9 printingSums { sink := .unlimited }).2.sink.written := by
    decide +kernel
  have hends := full_sink_ends_run hfree hlimited 9 printingSums {} forgetting
  dsimp only at hends
  obtain ⟨-, lines, hwritten, ⟨-, -, -, -, hsame⟩ | hrefused⟩ := hends
  · exact absurd (hsame.trans hwritten.symm) hdiffers
  · obtain ⟨herror, -, line, place, scopes, -, -, hleft, hreplaced⟩ := hrefused
    exact ⟨hfree, hlimited, by decide +kernel, by decide +kernel, herror, line, place, scopes,
      hleft, hreplaced⟩

end TinyScript
