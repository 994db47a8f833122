import GitGateway.Git.PackService
import GitGateway.Proofs.Outputs
import GitGateway.Proofs.Pipes

/-!
# What an exchange carries

While a git program runs, its two outputs go through a pipe each, and a copy carries what is in the
pipe to the client.  The client's input, the program and the two copies move in any order.

The program is left open here: as long as it has not ended, it may write, read, close its ends of
the pipes and change its mind in any way (`Exchange.Moves`).  Whatever it does, what it wrote to an
output is what the copy carried followed by what is still in the pipe, and the client's stream has
received what was carried (`Carried`).  A copy ends well only behind a pipe that is closed and
empty, and badly only on a stream that takes no more.  So once an exchange is over, both streams
have received what the program wrote, as far as they take it (`Exchange.Flow.of_isOver`).  The
client's input does not come into it.

A program that is a script of acts takes such moves, and what it writes is told by the script and by
what it read (`Exchange.Turns.follows`).
-/

namespace GitGateway

namespace Git

/-! ## An output on its way -/

/-- Where an output stands of which `wrote` was written: the copy has carried a part of it to a sink
that began as `sink₀`, and the rest is in the pipe. -/
inductive Carried (sink₀ : Sink) (wrote : List UInt8) (pipe : Pipe) (sink : Sink) :
    Option CopyEnd → Prop where
  | going (carried : List UInt8) (hwrote : wrote = carried ++ pipe.bytes)
      (hsink : sink = sink₀.receive carried) (hfits : sink₀.Fits carried) :
      Carried sink₀ wrote pipe sink none
  | finished (hclosed : pipe.isClosed = true) (hempty : pipe.bytes = [])
      (hsink : sink = sink₀.receive wrote) (hfits : sink₀.Fits wrote) :
      Carried sink₀ wrote pipe sink (some .finished)
  | failed (carried : List UInt8) (hwrote : wrote = carried ++ pipe.bytes)
      (hsink : sink = sink₀.receive carried) (hfits : ¬ sink₀.Fits carried) (e : IoError) :
      Carried sink₀ wrote pipe sink (some (.failed e))

namespace Carried

variable {sink₀ sink sink' : Sink} {wrote data : List UInt8} {pipe pipe' : Pipe} {n : Nat}
variable {copy copy' : Option CopyEnd}

/-- More is written. -/
theorem write (h : Carried sink₀ wrote pipe sink copy)
    (hwrite : pipe.write data = (.ready (.ok n), pipe')) :
    Carried sink₀ (wrote ++ data.take n) pipe' sink copy := by
  obtain ⟨hopen, rfl⟩ := Pipe.write_ok hwrite
  cases h with
  | going carried hwrote hsink hfits =>
    exact .going carried (by rw [hwrote, List.append_assoc]) hsink hfits
  | finished hclosed => cases hclosed.symm.trans hopen
  | failed carried hwrote hsink hfits e =>
    exact .failed carried (by rw [hwrote, List.append_assoc]) hsink hfits e

/-- The pipe is closed. -/
theorem close (h : Carried sink₀ wrote pipe sink copy) :
    Carried sink₀ wrote pipe.close sink copy := by
  cases h with
  | going carried hwrote hsink hfits => exact .going carried hwrote hsink hfits
  | finished _ hempty hsink hfits => exact .finished rfl hempty hsink hfits
  | failed carried hwrote hsink hfits e =>
    refine .failed carried ?_ hsink hfits e
    exact hwrote

/-- The copy takes a turn. -/
theorem carry (h : Carried sink₀ wrote pipe sink none)
    (hcarry : Exchange.carry pipe sink = some (pipe', sink', copy')) :
    Carried sink₀ wrote pipe' sink' copy' := by
  obtain ⟨carried, hwrote, rfl, hfits⟩ := h
  unfold Exchange.carry at hcarry
  split at hcarry
  · cases hcarry
  · next hread =>
    obtain ⟨hbytes, hstays, hend⟩ := Pipe.read_ready hread
    obtain ⟨hclosed, hempty⟩ := hend rfl (by decide)
    cases hcarry
    rw [hempty, List.append_nil] at hwrote
    rw [hempty] at hbytes
    subst hwrote
    exact .finished (hstays.trans hclosed) hbytes.symm rfl hfits
  · next data pipe _ hread =>
    obtain ⟨hbytes, -, -⟩ := Pipe.read_ready hread
    rw [hbytes, ← List.append_assoc] at hwrote
    rw [Sink.writeAll_eq] at hcarry
    by_cases hdata : (sink₀.receive carried).Fits data
    · rw [if_pos hdata] at hcarry
      cases hcarry
      exact .going _ hwrote Sink.receive_append.symm (Sink.fits_append_iff.2 ⟨hfits, hdata⟩)
    · rw [if_neg hdata] at hcarry
      cases hcarry
      exact .failed _ hwrote Sink.receive_append.symm
        (fun hall ↦ hdata (Sink.fits_append_iff.1 hall).2) _

/-- A copy that has ended has given the sink what it takes of all that was written, and it ended well
exactly if that was all. -/
theorem of_end {ending : CopyEnd} (h : Carried sink₀ wrote pipe sink (some ending)) :
    sink = sink₀.receive wrote ∧ (ending = .finished ↔ sink₀.Fits wrote) := by
  cases h with
  | finished _ _ hsink hfits => exact ⟨hsink, iff_of_true rfl hfits⟩
  | failed carried hwrote hsink hfits e =>
    subst hwrote
    refine ⟨?_, iff_of_false nofun fun hall ↦ hfits (Sink.fits_append_iff.1 hall).1⟩
    rw [hsink, Sink.receive_append, Sink.receive_of_not_fits hfits]

end Carried

/-! ## Moves -/

/-- What a program wrote and read. -/
@[ext]
structure Traffic where
  printed : List UInt8 := []
  complained : List UInt8 := []
  consumed : List UInt8 := []
deriving DecidableEq, Repr

namespace Traffic

/-- Traffic behind other traffic. -/
def append (t u : Traffic) : Traffic :=
  ⟨t.printed ++ u.printed, t.complained ++ u.complained, t.consumed ++ u.consumed⟩

instance : Append Traffic := ⟨append⟩

@[simp] theorem printed_append (t u : Traffic) : (t ++ u).printed = t.printed ++ u.printed := rfl
@[simp] theorem complained_append (t u : Traffic) :
    (t ++ u).complained = t.complained ++ u.complained := rfl
@[simp] theorem consumed_append (t u : Traffic) :
    (t ++ u).consumed = t.consumed ++ u.consumed := rfl

@[simp] theorem append_empty (t : Traffic) : t ++ ({} : Traffic) = t := by ext1 <;> simp
@[simp] theorem empty_append (t : Traffic) : ({} : Traffic) ++ t = t := rfl

theorem append_assoc (t u v : Traffic) : t ++ u ++ v = t ++ (u ++ v) := by ext1 <;> simp

end Traffic

namespace Exchange

/-- One move of an exchange, with the traffic of the program in it.  The input and the two copies
take their turns; the program does as it likes until it has ended. -/
inductive Moves (x : Exchange) : Traffic → Exchange → Prop where
  | feedRead {x' : Exchange} (h : x.stepFeedRead = some x') : Moves x {} x'
  | feedWrite {x' : Exchange} (h : x.stepFeedWrite = some x') : Moves x {} x'
  | output {x' : Exchange} (h : x.stepOutput = some x') : Moves x {} x'
  | diagnostics {x' : Exchange} (h : x.stepDiagnostics = some x') : Moves x {} x'
  | prints {data : List UInt8} {n : Nat} {output : Pipe} (hlive : x.hasEnded = false)
      (h : x.output.write data = (.ready (.ok n), output)) :
      Moves x { printed := data.take n } { x with output }
  | complains {data : List UInt8} {n : Nat} {diagnostics : Pipe} (hlive : x.hasEnded = false)
      (h : x.diagnostics.write data = (.ready (.ok n), diagnostics)) :
      Moves x { complained := data.take n } { x with diagnostics }
  | consumes {data : List UInt8} {n : Nat} {input : Pipe} (hlive : x.hasEnded = false)
      (h : x.input.read n = (.ready data, input)) : Moves x { consumed := data } { x with input }
  | closesInput (hlive : x.hasEnded = false) : Moves x {} { x with input := x.input.close }
  | closesOutput (hlive : x.hasEnded = false) : Moves x {} { x with output := x.output.close }
  | closesDiagnostics (hlive : x.hasEnded = false) :
      Moves x {} { x with diagnostics := x.diagnostics.close }
  /-- What it still does, and how it will end, is up to the program. -/
  | decides (hlive : x.hasEnded = false) (child : Child) : Moves x {} { x with child }
  | ends (hlive : x.hasEnded = false) : Moves x {} x.endChild

/-- Any number of moves. -/
inductive Unfolds : Exchange → Traffic → Exchange → Prop where
  | refl (x : Exchange) : Unfolds x {} x
  | move {x y z : Exchange} {t u : Traffic} (h : Moves x t y) (hrest : Unfolds y u z) :
      Unfolds x (t ++ u) z

/-- The state of both outputs of an exchange that began with the streams `io₀`, behind the traffic of
its program. -/
structure Flow (io₀ : PackIo) (t : Traffic) (x : Exchange) : Prop where
  output : Carried io₀.stdout t.printed x.output x.io.stdout x.outputEnd
  diagnostics : Carried io₀.stderr t.complained x.diagnostics x.io.stderr x.diagnosticsEnd

variable {io₀ : PackIo} {t u : Traffic} {x x' y z : Exchange}

theorem Unfolds.single (h : Moves x t y) : Unfolds x t y := by
  simpa using Unfolds.move h (.refl y)

theorem Unfolds.trans (h : Unfolds x t y) (h' : Unfolds y u z) : Unfolds x (t ++ u) z := by
  induction h with
  | refl => exact h'
  | move hmove _ ih => rw [Traffic.append_assoc]; exact .move hmove (ih h')

/-- Reading the client's input leaves the outputs alone. -/
theorem flow_stepFeedRead (h : Flow io₀ t x) (hstep : x.stepFeedRead = some x') : Flow io₀ t x' := by
  unfold stepFeedRead at hstep
  split at hstep
  · cases hstep
  · dsimp only at hstep
    split at hstep <;> cases hstep <;> exact ⟨h.output, h.diagnostics⟩

/-- Passing input on leaves the outputs alone. -/
theorem flow_stepFeedWrite (h : Flow io₀ t x) (hstep : x.stepFeedWrite = some x') :
    Flow io₀ t x' := by
  unfold stepFeedWrite at hstep
  split at hstep
  · cases hstep
  · split at hstep
    · split at hstep <;> cases hstep
      exact ⟨h.output, h.diagnostics⟩
    · split at hstep <;> cases hstep <;> exact ⟨h.output, h.diagnostics⟩

theorem flow_stepOutput (h : Flow io₀ t x) (hstep : x.stepOutput = some x') : Flow io₀ t x' := by
  unfold stepOutput at hstep
  split at hstep
  · cases hstep
  · next hgoing =>
    obtain ⟨⟨output, stdout, copy⟩, hcarry, rfl⟩ := Option.map_eq_some_iff.1 hstep
    have houtput := h.output
    rw [Option.not_isSome_iff_eq_none.1 hgoing] at houtput
    exact ⟨houtput.carry hcarry, h.diagnostics⟩

theorem flow_stepDiagnostics (h : Flow io₀ t x) (hstep : x.stepDiagnostics = some x') :
    Flow io₀ t x' := by
  unfold stepDiagnostics at hstep
  split at hstep
  · cases hstep
  · next hgoing =>
    obtain ⟨⟨diagnostics, stderr, copy⟩, hcarry, rfl⟩ := Option.map_eq_some_iff.1 hstep
    have hdiagnostics := h.diagnostics
    rw [Option.not_isSome_iff_eq_none.1 hgoing] at hdiagnostics
    exact ⟨h.output, hdiagnostics.carry hcarry⟩

/-- No move loses, repeats or reorders anything. -/
theorem Flow.move (h : Flow io₀ t x) (hmove : Moves x u y) : Flow io₀ (t ++ u) y := by
  have hsame : Flow io₀ (t ++ {}) x := by rwa [Traffic.append_empty]
  cases hmove with
  | feedRead hstep => exact flow_stepFeedRead hsame hstep
  | feedWrite hstep => exact flow_stepFeedWrite hsame hstep
  | output hstep => exact flow_stepOutput hsame hstep
  | diagnostics hstep => exact flow_stepDiagnostics hsame hstep
  | prints _ hwrite => exact ⟨h.output.write hwrite, hsame.diagnostics⟩
  | complains _ hwrite => exact ⟨hsame.output, h.diagnostics.write hwrite⟩
  | consumes | closesInput | decides => exact ⟨hsame.output, hsame.diagnostics⟩
  | closesOutput => exact ⟨hsame.output.close, hsame.diagnostics⟩
  | closesDiagnostics => exact ⟨hsame.output, hsame.diagnostics.close⟩
  | ends => exact ⟨hsame.output.close, hsame.diagnostics.close⟩

theorem Flow.unfolds (h : Flow io₀ t x) (hunfolds : Unfolds x u y) : Flow io₀ (t ++ u) y := by
  induction hunfolds generalizing t with
  | refl => rwa [Traffic.append_empty]
  | move hmove _ ih => rw [← Traffic.append_assoc]; exact ih (h.move hmove)

theorem flow_start (io : PackIo) (child : Child) : Flow io {} (start io child) :=
  ⟨.going [] rfl Sink.receive_nil.symm Sink.accepted_nil,
    .going [] rfl Sink.receive_nil.symm Sink.accepted_nil⟩

/-- Once an exchange is over, both of the client's streams have received what the program wrote. -/
theorem Flow.of_isOver (h : Flow io₀ t x) (hover : x.isOver = true) :
    x.io.stdout = io₀.stdout.receive t.printed ∧ x.io.stderr = io₀.stderr.receive t.complained ∧
      (x.outputEnd = some .finished ↔ io₀.stdout.Fits t.printed) ∧
      (x.diagnosticsEnd = some .finished ↔ io₀.stderr.Fits t.complained) := by
  obtain ⟨houtput, hdiagnostics⟩ := h
  simp only [isOver, Bool.and_eq_true, Option.isSome_iff_exists] at hover
  obtain ⟨⟨⟨outputEnd, houtputEnd⟩, ⟨diagnosticsEnd, hdiagnosticsEnd⟩⟩, -⟩ := hover
  rw [houtputEnd] at houtput ⊢
  rw [hdiagnosticsEnd] at hdiagnostics ⊢
  rw [Option.some_inj, Option.some_inj]
  exact ⟨houtput.of_end.1, hdiagnostics.of_end.1, houtput.of_end.2, hdiagnostics.of_end.2⟩

end Exchange

/-! ## Scripts -/

namespace Act

/-- What a script prints, given what it reads: the first echo reads all there is. -/
def printed : List Act → List UInt8 → List UInt8
  | [], _ => []
  | .print data :: rest, input => data ++ printed rest input
  | .complain _ :: rest, input => printed rest input
  | .echo :: rest, input => input ++ printed rest []

/-- What a script writes to its diagnostics. -/
def complained : List Act → List UInt8
  | [] => []
  | .complain data :: rest => data ++ complained rest
  | .print _ :: rest | .echo :: rest => complained rest

end Act

namespace Exchange

variable {t u : Traffic} {x y z : Exchange} {party : Party}

/-- One exchange comes to another by turns of its parties. -/
inductive Turns : Exchange → Exchange → Prop where
  | refl (x : Exchange) : Turns x x
  | turn {x y z : Exchange} {party : Party} (h : x.step party = some y) (hrest : Turns y z) :
      Turns x z

/-- The turns of a program that is a script, with their traffic. -/
inductive ScriptTurn (x : Exchange) : Traffic → Exchange → Prop where
  | ends (h : x.child.todo = []) : ScriptTurn x {} x.endChild
  | printed {rest : List Act} (h : x.child.todo = .print [] :: rest) :
      ScriptTurn x {} (x.withTodo rest)
  | prints {data : List UInt8} {n : Nat} {output : Pipe} {rest : List Act}
      (h : x.child.todo = .print data :: rest)
      (hwrite : x.output.write data = (.ready (.ok n), output)) :
      ScriptTurn x { printed := data.take n }
        ({ x with output }.withTodo (.print (data.drop n) :: rest))
  | complained {rest : List Act} (h : x.child.todo = .complain [] :: rest) :
      ScriptTurn x {} (x.withTodo rest)
  | complains {data : List UInt8} {n : Nat} {diagnostics : Pipe} {rest : List Act}
      (h : x.child.todo = .complain data :: rest)
      (hwrite : x.diagnostics.write data = (.ready (.ok n), diagnostics)) :
      ScriptTurn x { complained := data.take n }
        ({ x with diagnostics }.withTodo (.complain (data.drop n) :: rest))
  | echoed {rest : List Act} (h : x.child.todo = .echo :: rest) (hdry : x.input.IsDry) :
      ScriptTurn x {} (x.withTodo rest)
  | echoes {data : List UInt8} {input : Pipe} {rest : List Act} (h : x.child.todo = .echo :: rest)
      (hread : x.input.read chunk = (.ready data, input)) :
      ScriptTurn x { consumed := data } ({ x with input }.withTodo (.print data :: .echo :: rest))

theorem scriptTurn_of_stepChild (h : x.stepChild = some y) :
    x.hasEnded = false ∧ ∃ t, ScriptTurn x t y := by
  unfold stepChild at h
  split at h
  · cases h
  · next hlive =>
    refine ⟨Bool.eq_false_iff.2 hlive, ?_⟩
    split at h
    · next htodo =>
      cases h
      exact ⟨_, .ends htodo⟩
    · next htodo =>
      split at h
      · next hempty =>
        cases h
        rw [List.isEmpty_iff.1 hempty] at htodo
        exact ⟨_, .printed htodo⟩
      · split at h <;> cases h
        next hwrite => exact ⟨_, .prints htodo hwrite⟩
    · next htodo =>
      split at h
      · next hempty =>
        cases h
        rw [List.isEmpty_iff.1 hempty] at htodo
        exact ⟨_, .complained htodo⟩
      · split at h <;> cases h
        next hwrite => exact ⟨_, .complains htodo hwrite⟩
    · next htodo =>
      split at h
      · cases h
      · next hread =>
        cases h
        exact ⟨_, .echoed htodo ((Pipe.read_ready hread).2.2 rfl (by decide))⟩
      · next hread =>
        cases h
        exact ⟨_, .echoes htodo hread⟩

/-- After a move, the program decides what it still does. -/
theorem Moves.unfolds_withTodo (h : Moves x t y) (hlive : y.hasEnded = false) (todo : List Act) :
    Unfolds x t (y.withTodo todo) := by
  rw [← Traffic.append_empty t]
  exact .move h (.single (.decides hlive _))

theorem ScriptTurn.unfolds (h : ScriptTurn x t y) (hlive : x.hasEnded = false) :
    Unfolds x t y := by
  cases h with
  | ends => exact .single (.ends hlive)
  | printed | complained | echoed => exact .single (.decides hlive _)
  | prints _ hwrite => exact (Moves.prints hlive hwrite).unfolds_withTodo hlive _
  | complains _ hwrite => exact (Moves.complains hlive hwrite).unfolds_withTodo hlive _
  | echoes _ hread => exact (Moves.consumes hlive hread).unfolds_withTodo hlive _

/-- What a turn of the client's side leaves alone. -/
structure Aside (x y : Exchange) : Prop where
  child : y.child = x.child
  hasEnded : y.hasEnded = x.hasEnded
  isDry : x.input.IsDry → y.input.IsDry

theorem aside_stepFeedRead (h : x.stepFeedRead = some y) : Aside x y := by
  unfold stepFeedRead at h
  split at h
  · cases h
  · dsimp only at h
    split at h <;> cases h
    · exact ⟨rfl, rfl, fun hdry ↦ ⟨rfl, hdry.bytes⟩⟩
    · exact ⟨rfl, rfl, id⟩
    · exact ⟨rfl, rfl, id⟩

theorem aside_stepFeedWrite (h : x.stepFeedWrite = some y) : Aside x y := by
  unfold stepFeedWrite at h
  split at h
  · cases h
  · split at h
    · split at h <;> cases h
      exact ⟨rfl, rfl, fun hdry ↦ ⟨rfl, hdry.bytes⟩⟩
    · split at h <;> cases h
      · exact ⟨rfl, rfl, fun hdry ↦ ⟨rfl, hdry.bytes⟩⟩
      · next hwrite =>
        obtain ⟨hopen, -⟩ := Pipe.write_ok hwrite
        exact ⟨rfl, rfl, fun hdry ↦ absurd (hopen.symm.trans hdry.isClosed) (by decide)⟩

theorem aside_stepOutput (h : x.stepOutput = some y) : Aside x y := by
  unfold stepOutput at h
  split at h
  · cases h
  · obtain ⟨_, -, rfl⟩ := Option.map_eq_some_iff.1 h
    exact ⟨rfl, rfl, id⟩

theorem aside_stepDiagnostics (h : x.stepDiagnostics = some y) : Aside x y := by
  unfold stepDiagnostics at h
  split at h
  · cases h
  · obtain ⟨_, -, rfl⟩ := Option.map_eq_some_iff.1 h
    exact ⟨rfl, rfl, id⟩

/-- Moves that lead to an exchange `z`, with the traffic that the script of the program tells: a
program that has ended passes none, one whose input is dry reads nothing, and one that comes to its
end in between writes what its script says about what it reads. -/
structure Follows (x : Exchange) (t : Traffic) (z : Exchange) : Prop where
  unfolds : Unfolds x t z
  idle : x.hasEnded = true → t = {}
  consumed : x.input.IsDry → t.consumed = []
  exit : z.child.exit = x.child.exit
  printed : x.hasEnded = false → z.hasEnded = true →
    t.printed = Act.printed x.child.todo t.consumed
  complained : x.hasEnded = false → z.hasEnded = true →
    t.complained = Act.complained x.child.todo

namespace Follows

theorem refl (x : Exchange) : Follows x {} x where
  unfolds := .refl x
  idle _ := rfl
  consumed _ := rfl
  exit := rfl
  printed hlive hended := absurd (hlive.symm.trans hended) (by decide)
  complained hlive hended := absurd (hlive.symm.trans hended) (by decide)

/-- A turn of the client's side comes before. -/
theorem of_aside (h : Follows y u z) (hmove : Moves x {} y) (haside : Aside x y) :
    Follows x u z where
  unfolds := .move hmove h.unfolds
  idle hended := h.idle (haside.hasEnded.trans hended)
  consumed hdry := h.consumed (haside.isDry hdry)
  exit := h.exit.trans (congrArg Child.exit haside.child)
  printed hlive hended := haside.child ▸ h.printed (haside.hasEnded.trans hlive) hended
  complained hlive hended := haside.child ▸ h.complained (haside.hasEnded.trans hlive) hended

/-- A turn of the script comes before. -/
theorem of_scriptTurn (h : Follows y u z) (hturn : ScriptTurn x t y) (hlive : x.hasEnded = false) :
    Follows x (t ++ u) z where
  unfolds := (hturn.unfolds hlive).trans h.unfolds
  idle hended := absurd (hlive.symm.trans hended) (by decide)
  consumed hdry := by
    cases hturn with
    | echoes _ hread =>
      obtain ⟨rfl, hinput⟩ := hdry.read hread
      exact h.consumed hinput
    | ends => exact h.consumed ⟨rfl, hdry.bytes⟩
    | printed | prints | complained | complains | echoed => exact h.consumed hdry
  exit := by cases hturn <;> exact h.exit
  printed _ hended := by
    cases hturn with
    | ends htodo => rw [htodo, h.idle rfl]; rfl
    | printed htodo | complained htodo | complains htodo =>
      rw [htodo]
      exact h.printed hlive hended
    | @prints data n _ rest htodo =>
      have hu : u.printed = data.drop n ++ Act.printed rest u.consumed := h.printed hlive hended
      rw [htodo, Traffic.printed_append, hu, ← List.append_assoc, List.take_append_drop]
      rfl
    | @echoed rest htodo hdry =>
      have hu : u.printed = Act.printed rest u.consumed := h.printed hlive hended
      have hconsumed : u.consumed = [] := h.consumed hdry
      rw [htodo, Traffic.empty_append, hu, hconsumed]
      rfl
    | @echoes data _ rest htodo =>
      have hu : u.printed = data ++ (u.consumed ++ Act.printed rest []) := h.printed hlive hended
      rw [htodo, Traffic.printed_append, Traffic.consumed_append, hu]
      exact (List.append_assoc data u.consumed _).symm
  complained _ hended := by
    cases hturn with
    | ends htodo => rw [htodo, h.idle rfl]; rfl
    | printed htodo | prints htodo | complained htodo | echoed htodo | echoes htodo =>
      rw [htodo]
      exact h.complained hlive hended
    | @complains data n _ rest htodo =>
      have hu : u.complained = data.drop n ++ Act.complained rest := h.complained hlive hended
      rw [htodo, Traffic.complained_append, hu, ← List.append_assoc, List.take_append_drop]
      rfl

end Follows

/-- Whatever turns an exchange takes, a script writes what it says about what it reads. -/
theorem Turns.follows (h : Turns x z) : ∃ t, Follows x t z := by
  induction h with
  | refl x => exact ⟨{}, .refl x⟩
  | @turn x y z party hstep _ ih =>
    obtain ⟨u, hu⟩ := ih
    cases party with
    | feedRead => exact ⟨u, hu.of_aside (.feedRead hstep) (aside_stepFeedRead hstep)⟩
    | feedWrite => exact ⟨u, hu.of_aside (.feedWrite hstep) (aside_stepFeedWrite hstep)⟩
    | output => exact ⟨u, hu.of_aside (.output hstep) (aside_stepOutput hstep)⟩
    | diagnostics => exact ⟨u, hu.of_aside (.diagnostics hstep) (aside_stepDiagnostics hstep)⟩
    | child =>
      obtain ⟨hlive, t, hturn⟩ := scriptTurn_of_stepChild hstep
      exact ⟨t ++ u, hu.of_scriptTurn hturn hlive⟩

/-! ## One order of turns -/

theorem Turns.trans (h : Turns x y) (h' : Turns y z) : Turns x z := by
  induction h with
  | refl => exact h'
  | turn hstep _ ih => exact .turn hstep (ih h')

theorem turns_turn (x : Exchange) (party : Party) : Turns x (x.turn party) := by
  unfold turn
  cases hstep : x.step party with
  | none => exact .refl x
  | some y => exact .turn hstep (.refl y)

theorem turns_foldl (parties : List Party) (x : Exchange) : Turns x (parties.foldl turn x) := by
  induction parties generalizing x with
  | nil => exact .refl x
  | cons party rest ih => exact (turns_turn x party).trans (ih _)

theorem turns_rounds (fuel : Nat) (x : Exchange) : Turns x (rounds fuel x) := by
  induction fuel generalizing x with
  | zero => exact .refl x
  | succ fuel ih =>
    unfold rounds
    split
    · exact .refl x
    · split
      · exact .refl x
      · exact (turns_foldl round x).trans (ih _)

/-- The order in rounds is one of the orders. -/
theorem turns_run (x : Exchange) : Turns x x.run :=
  ((turns_turn x .feedRead).trans (turns_turn _ .feedRead)).trans (turns_rounds _ _)

end Exchange

end Git

end GitGateway
