import Ubiq.Contracts.SemanticQueue

/-!
# Resumable streams

The stream of `contracts.zig`. A stream accepts the number behind the last one it accepted, and
a resume moves this cursor to a number that was accepted earlier. The numbers are natural numbers:
the checked addition of the source traps where its 64 bits end.

The accepted numbers of a run are read off its calls and replies. They are `1, 2, 3, …` as long as
no resume moves the cursor (`range_append_accepted`); a resume that moves it back is followed, if
the caller wishes, by a second acceptance of the next number.
-/

namespace Ubiq.Contracts

open Foundation

inductive StreamState
  | open
  | paused
  | ended
  | cancelled
  | failed
deriving DecidableEq, Repr

structure Stream where
  acceptedSequence : Nat := 0
  state : StreamState := .open
deriving DecidableEq, Repr

/-- The calls on a stream. -/
inductive StreamCall
  | accept (sequence : Nat)
  | resumeFrom (lastAccepted : Nat)
  | pause
  | endStream
deriving DecidableEq, Repr

/-- What a call returns. -/
abbrev StreamReply := Except ContractError Unit

namespace Stream

def accept (stream : Stream) (sequence : Nat) : Stream × StreamReply :=
  if stream.state ≠ .open ∧ stream.state ≠ .paused then (stream, .error .invalidStreamTransition)
  else if sequence ≠ stream.acceptedSequence + 1 then (stream, .error .invalidStreamTransition)
  else ({ stream with acceptedSequence := sequence }, .ok ())

def resumeFrom (stream : Stream) (lastAccepted : Nat) : Stream × StreamReply :=
  if stream.state = .ended ∨ stream.state = .cancelled then
    (stream, .error .invalidStreamTransition)
  else if lastAccepted > stream.acceptedSequence then (stream, .error .invalidStreamTransition)
  else ({ acceptedSequence := lastAccepted, state := .open }, .ok ())

def pause (stream : Stream) : Stream × StreamReply :=
  if stream.state ≠ .open then (stream, .error .invalidStreamTransition)
  else ({ stream with state := .paused }, .ok ())

/-- `end`. -/
def endStream (stream : Stream) : Stream × StreamReply :=
  if stream.state = .cancelled ∨ stream.state = .failed then
    (stream, .error .invalidStreamTransition)
  else ({ stream with state := .ended }, .ok ())

/-- One call. -/
def perform (stream : Stream) : StreamCall → Stream × StreamReply
  | .accept sequence => stream.accept sequence
  | .resumeFrom lastAccepted => stream.resumeFrom lastAccepted
  | .pause => stream.pause
  | .endStream => stream.endStream

/-- The calls of a run with their replies. -/
def history (stream : Stream) (calls : List StreamCall) : List (StreamCall × StreamReply) :=
  Execution.trace perform stream calls

/-- The stream after some calls. -/
def after (stream : Stream) (calls : List StreamCall) : Stream :=
  Execution.run (Execution.after perform) stream calls

/-- The number that a call accepted. -/
def acceptedBy : StreamCall × StreamReply → Option Nat
  | (.accept sequence, .ok _) => some sequence
  | _ => none

/-- The numbers that were accepted, in the order of the calls. -/
def accepted (calls : List (StreamCall × StreamReply)) : List Nat :=
  calls.filterMap acceptedBy

/-- A run from a new stream accepts `1, 2, 3, …`, each once and in this order, and nothing after
its end. -/
structure AcceptsOnce (calls : List StreamCall) : Prop where
  inOrder : ∃ count, accepted (history {} calls) = List.range' 1 count
  nothingAfterEnd : ∀ before later, history {} calls = before ++ (.endStream, .ok ()) :: later →
    accepted later = []

/-- A resume of this stream that is not refused leaves the cursor where it is. -/
def KeepsCursor (stream : Stream) : StreamCall → Prop
  | .resumeFrom lastAccepted =>
      stream.state ≠ .ended → stream.state ≠ .cancelled →
        lastAccepted ≤ stream.acceptedSequence → lastAccepted = stream.acceptedSequence
  | _ => True

/-! ## After the end -/

variable {stream : Stream} {calls : List StreamCall}

theorem perform_of_ended (h : stream.state = .ended) (call : StreamCall) :
    (stream.perform call).1.state = .ended ∧ acceptedBy (call, (stream.perform call).2) = none := by
  cases call with
  | accept sequence => simp [perform, accept, h, acceptedBy]
  | resumeFrom lastAccepted => simp [perform, resumeFrom, h, acceptedBy]
  | pause => simp [perform, pause, h, acceptedBy]
  | endStream => simp [perform, endStream, h, acceptedBy]

theorem accepted_of_ended (h : stream.state = .ended) (calls : List StreamCall) :
    accepted (stream.history calls) = [] := by
  induction calls generalizing stream with
  | nil => rfl
  | cons call rest ih =>
      obtain ⟨hended, hnone⟩ := perform_of_ended h call
      rw [history, Execution.trace_cons, accepted, List.filterMap_cons_none hnone]
      exact ih hended

theorem accepted_after_end {before later : List (StreamCall × StreamReply)}
    (h : stream.history calls = before ++ (.endStream, .ok ()) :: later) : accepted later = [] := by
  obtain ⟨first, second, rfl, _, hsecond⟩ := Execution.trace_eq_append h
  cases second with
  | nil => cases hsecond
  | cons call rest =>
      rw [Execution.trace_cons, List.cons.injEq, Prod.mk.injEq] at hsecond
      obtain ⟨⟨rfl, hreply⟩, rfl⟩ := hsecond
      refine accepted_of_ended ?_ rest
      -- The call answered without an error, so it has set the state.
      show ((stream.after first).endStream).1.state = .ended
      have hreply : ((stream.after first).endStream).2 = .ok () := hreply
      unfold endStream at hreply ⊢
      split_ifs at hreply ⊢
      rfl

/-! ## The accepted numbers -/

/-- One call that keeps the cursor accepts the number behind it or nothing. -/
theorem range_append_acceptedBy {call : StreamCall} (h : stream.KeepsCursor call) :
    List.range' 1 stream.acceptedSequence ++ accepted [(call, (stream.perform call).2)] =
      List.range' 1 (stream.perform call).1.acceptedSequence := by
  cases call with
  | accept sequence =>
      simp only [perform, accept]
      split_ifs with hstate hsequence
      · simp [accepted, acceptedBy]
      · simp [accepted, acceptedBy]
      · obtain rfl := not_ne_iff.mp hsequence
        simp [accepted, acceptedBy, List.range'_concat, Nat.add_comm]
  | resumeFrom lastAccepted =>
      simp only [perform, resumeFrom]
      split_ifs with hstate hlater
      · simp [accepted, acceptedBy]
      · simp [accepted, acceptedBy]
      · push Not at hstate hlater
        rw [h hstate.1 hstate.2 hlater]
        simp [accepted, acceptedBy]
  | pause =>
      simp only [perform, pause]
      split_ifs <;> simp [accepted, acceptedBy]
  | endStream =>
      simp only [perform, endStream]
      split_ifs <;> simp [accepted, acceptedBy]

/-- Calls that keep the cursor accept the numbers behind it one after the other. -/
theorem range_append_accepted
    (h : Execution.Along (Execution.after perform) KeepsCursor stream calls) :
    List.range' 1 stream.acceptedSequence ++ accepted (stream.history calls) =
      List.range' 1 (stream.after calls).acceptedSequence := by
  induction calls generalizing stream with
  | nil => simp [history, accepted, after]
  | cons call rest ih =>
      obtain ⟨hfirst, hrest⟩ := h
      have hsplit : accepted (stream.history (call :: rest)) =
          accepted [(call, (stream.perform call).2)] ++
            accepted ((stream.perform call).1.history rest) := by
        rw [accepted, accepted, accepted, ← List.filterMap_append]
        rfl
      rw [hsplit, ← List.append_assoc, range_append_acceptedBy hfirst]
      exact ih hrest

theorem accepted_of_along (h : Execution.Along (Execution.after perform) KeepsCursor {} calls) :
    accepted (history {} calls) = List.range' 1 (after {} calls).acceptedSequence := by
  simpa using range_append_accepted h

theorem accepted_append (first second : List StreamCall) :
    accepted (stream.history (first ++ second)) =
      accepted (stream.history first) ++ accepted ((stream.after first).history second) := by
  rw [history, Execution.trace_append, accepted, List.filterMap_append]
  rfl

/-- Behind a resume that is not refused the next number is accepted, whatever it is. -/
theorem accepted_of_resumed {lastAccepted : Nat} (hended : stream.state ≠ .ended)
    (hcancelled : stream.state ≠ .cancelled) (hle : lastAccepted ≤ stream.acceptedSequence) :
    accepted (stream.history [.resumeFrom lastAccepted, .accept (lastAccepted + 1)]) =
      [lastAccepted + 1] := by
  have hhistory : stream.history [.resumeFrom lastAccepted, .accept (lastAccepted + 1)] =
      [(.resumeFrom lastAccepted, .ok ()), (.accept (lastAccepted + 1), .ok ())] := by
    simp [history, perform, Execution.after, resumeFrom, accept, hended, hcancelled,
      Nat.not_lt.mpr hle]
  rw [hhistory]
  rfl

/-- **Exactly-once acceptance.** Whatever number is offered next at any point of a run, the
numbers accepted so far are `1, 2, 3, …` without repetition, exactly when no resume of the run has
moved the cursor. -/
theorem acceptsOnce_iff (calls : List StreamCall) :
    (∀ first, first <+: calls → ∀ sequence, AcceptsOnce (first ++ [.accept sequence])) ↔
      Execution.Along (Execution.after perform) KeepsCursor {} calls := by
  constructor
  · intro h
    -- Along a run without the last call the cursor is known; the last call is then looked at.
    induction calls using List.reverseRecOn with
    | nil => trivial
    | append_singleton calls call ih =>
        have halong := ih fun first hfirst => h first (hfirst.trans (List.prefix_append _ _))
        refine (Execution.along_append _ _ _ _ _).mpr ⟨halong, ?_, trivial⟩
        cases call with
        | accept sequence => trivial
        | pause => trivial
        | endStream => trivial
        | resumeFrom lastAccepted =>
            show (after {} calls).state ≠ .ended → (after {} calls).state ≠ .cancelled →
              lastAccepted ≤ (after {} calls).acceptedSequence →
                lastAccepted = (after {} calls).acceptedSequence
            intro hended hcancelled hle
            obtain ⟨count, hcount⟩ := (h _ (List.prefix_rfl) (lastAccepted + 1)).inOrder
            rw [List.append_assoc, List.singleton_append, accepted_append,
              accepted_of_along halong, accepted_of_resumed hended hcancelled hle] at hcount
            have hlength := congrArg List.length hcount
            rw [List.length_append, List.length_range', List.length_range',
              List.length_singleton] at hlength
            subst hlength
            rw [List.range'_concat] at hcount
            have hlast := List.append_cancel_left hcount
            rw [List.singleton_inj] at hlast
            omega
  · intro h first hfirst sequence
    obtain ⟨rest, rfl⟩ := hfirst
    obtain ⟨halong, _⟩ := (Execution.along_append _ _ _ _ _).mp h
    have hcalls : Execution.Along (Execution.after perform) KeepsCursor {}
        (first ++ [.accept sequence]) :=
      (Execution.along_append _ _ _ _ _).mpr ⟨halong, trivial, trivial⟩
    exact ⟨⟨_, accepted_of_along hcalls⟩, fun before later heq => accepted_after_end heq⟩

/-- The run of the test on resumes, with the number offered that was accepted before. -/
theorem not_acceptsOnce_resumed :
    ¬AcceptsOnce [.accept 1, .accept 2, .resumeFrom 1, .accept 2] := by
  rintro ⟨⟨count, hcount⟩, _⟩
  have haccepted : [1, 2, 2] = List.range' 1 count := hcount
  have hlength := congrArg List.length haccepted
  rw [List.length_range'] at hlength
  obtain rfl : 3 = count := hlength
  exact absurd haccepted (by decide)

end Stream
end Ubiq.Contracts
