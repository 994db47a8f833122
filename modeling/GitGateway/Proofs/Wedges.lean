import GitGateway.Proofs.Outlets

/-!
# Exchanges whose client goes away

A copy that fails stops reading, and its pipe stays open.  A program that has more to write to it
than the pipe holds then waits for ever, and so do the other copy, which waits for the end of the
program, and the operation: the exchange is **wedged**.

A turn does one thing to the program and its outlets (`Exchange.Goes`), and leaves less to do
(`Exchange.Goes.load_lt`).  An exchange with a jammed outlet is never over
(`Exchange.IsSound.isOver_of_isJammed`), so it runs out of turns before that; one that is neither
over nor jammed goes on (`Exchange.IsSound.exists_step`).  So the question is only whether an outlet
can jam.  The worst case for a copy is that its client goes away at the start and that it reads as
soon as the first piece is in the pipe (`Exchange.IsSound.exists_isJammed`).
-/

namespace GitGateway

/-- What is read of a source comes from its front; a failing read takes nothing. -/
theorem Source.of_read {s s' : Source} {n : Nat} {r : Except IoError (List UInt8)}
    (h : s.read n = (r, s')) : match r with
      | .error _ => s' = s
      | .ok data => s.bytes = data ++ s'.bytes := by
  unfold read at h
  dsimp only at h
  split at h <;> cases h
  · rfl
  · exact (List.take_append_drop n s.bytes).symm

namespace Git

/-! ## What happens to an exchange -/

namespace Exchange

open Relation (ReflTransGen)

variable {x y : Exchange}

/-- An output of the program of an exchange. -/
def outlet (x : Exchange) : Side → Outlet
  | .output => ⟨x.output, x.io.stdout, x.outputEnd, Act.pieces .output x.child.todo⟩
  | .diagnostics =>
    ⟨x.diagnostics, x.io.stderr, x.diagnosticsEnd, Act.pieces .diagnostics x.child.todo⟩

/-- The exchange with another pipe for an output. -/
def withPipe (x : Exchange) (side : Side) (pipe : Pipe) : Exchange :=
  match side with
  | .output => { x with output := pipe }
  | .diagnostics => { x with diagnostics := pipe }

/-- The exchange behind a turn of a copy. -/
def withCarried (x : Exchange) (side : Side) (r : Pipe × Sink × Option CopyEnd) : Exchange :=
  match side with
  | .output => { x with output := r.1, outputEnd := r.2.2, io := { x.io with stdout := r.2.1 } }
  | .diagnostics =>
    { x with diagnostics := r.1, diagnosticsEnd := r.2.2, io := { x.io with stderr := r.2.1 } }

@[simp] theorem outlet_withPipe (x : Exchange) (side other : Side) (pipe : Pipe) :
    (x.withPipe other pipe).outlet side =
      if side = other then { x.outlet side with pipe } else x.outlet side := by
  cases side <;> cases other <;> rfl

@[simp] theorem outlet_withCarried (x : Exchange) (side other : Side)
    (r : Pipe × Sink × Option CopyEnd) : (x.withCarried other r).outlet side =
      if side = other then ⟨r.1, r.2.1, r.2.2, (x.outlet side).rest⟩ else x.outlet side := by
  cases side <;> cases other <;> rfl

@[simp] theorem outlet_withTodo (x : Exchange) (side : Side) (todo : List Act) :
    (x.withTodo todo).outlet side = { x.outlet side with rest := Act.pieces side todo } := by
  cases side <;> rfl

@[simp] theorem outlet_endChild (x : Exchange) (side : Side) :
    x.endChild.outlet side = { x.outlet side with pipe := (x.outlet side).pipe.close } := by
  cases side <;> rfl

theorem outlet_rest (x : Exchange) (side : Side) :
    (x.outlet side).rest = Act.pieces side x.child.todo := by
  cases side <;> rfl

section Todo

variable {side other : Side} {data later : List UInt8} {rest : List Act} {pipe : Pipe}

theorem rest_of_todo (htodo : x.child.todo = side.act data :: rest) (hdata : data ≠ []) :
    (x.outlet side).rest = data :: Act.pieces side rest := by
  rw [outlet_rest, htodo, Act.pieces_cons_of_some ((Act.piece?_act hdata).trans (if_pos rfl))]

/-- An act that writes nothing is passed over. -/
theorem outlet_skip (htodo : x.child.todo = other.act [] :: rest) (side : Side) :
    (x.withTodo rest).outlet side = x.outlet side := by
  have hnone : Act.piece? side (other.act []) = none := Act.piece?_act_nil
  rw [outlet_withTodo, ← Act.pieces_cons_of_none hnone, ← htodo, ← outlet_rest]

/-- An act that writes to one outlet leaves the other alone. -/
theorem outlet_write_of_ne (htodo : x.child.todo = other.act data :: rest) (hside : side ≠ other) :
    ((x.withPipe other pipe).withTodo (other.act later :: rest)).outlet side = x.outlet side := by
  rw [outlet_withTodo, outlet_withPipe, if_neg hside, Act.pieces_act_of_ne hside,
    ← Act.pieces_act_of_ne hside, ← htodo, ← outlet_rest]

theorem outlet_write_self : ((x.withPipe side pipe).withTodo (side.act later :: rest)).outlet side =
    { x.outlet side with pipe, rest := Act.pieces side (side.act later :: rest) } := by
  rw [outlet_withTodo, outlet_withPipe, if_pos rfl]

end Todo

theorem step_party (x : Exchange) (side : Side) : x.step side.party =
    if (x.outlet side).copy.isSome then none
    else (carry (x.outlet side).pipe (x.outlet side).sink).map (x.withCarried side) := by
  cases side <;> rfl

/-- A program that does not wait for input. -/
def IsQuiet (x : Exchange) : Prop := ∀ act ∈ x.child.todo, act ≠ .echo

/-- What such a program still does is nothing, or begins with a write to one of its outlets. -/
theorem IsQuiet.todo_cases (hquiet : x.IsQuiet) :
    x.child.todo = [] ∨ ∃ side data rest, x.child.todo = Side.act side data :: rest := by
  cases htodo : x.child.todo with
  | nil => exact .inl rfl
  | cons act rest =>
    cases act with
    | print data => exact .inr ⟨.output, data, rest, rfl⟩
    | complain data => exact .inr ⟨.diagnostics, data, rest, rfl⟩
    | echo => exact absurd rfl (hquiet .echo (htodo ▸ List.mem_cons_self))

theorem stepChild_of_done (hlive : x.hasEnded = false) (htodo : x.child.todo = []) :
    x.stepChild = some x.endChild := by
  rw [stepChild, if_neg (Bool.eq_false_iff.1 hlive), htodo]

theorem stepChild_of_todo {side : Side} {data : List UInt8} {rest : List Act}
    (hlive : x.hasEnded = false) (htodo : x.child.todo = side.act data :: rest) :
    x.stepChild = if data.isEmpty then some (x.withTodo rest) else
      match (x.outlet side).pipe.write data with
      | (.ready (.ok n), pipe) =>
        some ((x.withPipe side pipe).withTodo (side.act (data.drop n) :: rest))
      | _ => none := by
  cases side <;>
    · rw [stepChild, if_neg (Bool.eq_false_iff.1 hlive), htodo]
      rfl

/-- The turns of a program that does not wait for input. -/
inductive QuietTurn (x : Exchange) : Exchange → Prop where
  | ends (htodo : x.child.todo = []) : QuietTurn x x.endChild
  | skips (side : Side) {rest : List Act} (htodo : x.child.todo = side.act [] :: rest) :
      QuietTurn x (x.withTodo rest)
  | writes (side : Side) {data : List UInt8} {n : Nat} {pipe : Pipe} {rest : List Act}
      (htodo : x.child.todo = side.act data :: rest) (hdata : data ≠ [])
      (hwrite : (x.outlet side).pipe.write data = (.ready (.ok n), pipe)) :
      QuietTurn x ((x.withPipe side pipe).withTodo (side.act (data.drop n) :: rest))

theorem quietTurn_of_stepChild (hquiet : x.IsQuiet) (h : x.stepChild = some y) :
    x.hasEnded = false ∧ QuietTurn x y := by
  have hlive : x.hasEnded = false := by
    refine Bool.eq_false_iff.2 fun hended ↦ ?_
    rw [stepChild, if_pos hended] at h
    cases h
  refine ⟨hlive, ?_⟩
  rcases hquiet.todo_cases with htodo | ⟨side, data, rest, htodo⟩
  · rw [stepChild_of_done hlive htodo] at h
    cases h
    exact .ends htodo
  · rw [stepChild_of_todo hlive htodo] at h
    split at h
    · next hempty =>
      cases h
      rw [List.isEmpty_iff.1 hempty] at htodo
      exact .skips side htodo
    · next hdata =>
      split at h <;> cases h
      next hwrite => exact .writes side htodo (mt List.isEmpty_iff.2 hdata) hwrite

/-- A program that does not wait for input waits for one of its outlets at most. -/
theorem exists_full_of_stepChild (hquiet : x.IsQuiet) (hlive : x.hasEnded = false)
    (hopen : ∀ side, (x.outlet side).pipe.isClosed = false) (h : x.stepChild = none) :
    ∃ side, (x.outlet side).pipe.capacity ≤ (x.outlet side).pipe.bytes.length ∧
      0 < (x.outlet side).rest.flatten.length := by
  rcases hquiet.todo_cases with htodo | ⟨side, data, rest, htodo⟩
  · rw [stepChild_of_done hlive htodo] at h
    cases h
  · rw [stepChild_of_todo hlive htodo] at h
    split at h
    · cases h
    · next hdata =>
      refine ⟨side, ?_, ?_⟩
      · rcases hwrite : (x.outlet side).pipe.write data with ⟨(_ | n) | _, pipe⟩
        · cases (Pipe.isClosed_of_write hwrite).symm.trans (hopen side)
        · rw [hwrite] at h
          cases h
        · exact (Pipe.write_pending hwrite).2
      · rw [outlet_rest, htodo, Act.flatten_pieces_act, List.length_append]
        exact Nat.add_pos_left (List.length_pos_iff.2 (mt List.isEmpty_iff.2 hdata)) _

/-- How much the input copy still has to do. -/
def feedLoad (x : Exchange) : Nat :=
  2 * x.io.stdin.bytes.length + x.feed.buffer.length + (!x.feed.drained).toNat +
    (!x.feed.isOver).toNat

/-- What a turn does to the program and its outlets. -/
inductive Goes (x : Exchange) : Exchange → Prop where
  | feeds {y : Exchange} (hchild : y.child = x.child) (hended : y.hasEnded = x.hasEnded)
      (houtlet : ∀ side, y.outlet side = x.outlet side) (hload : y.feedLoad < x.feedLoad) : Goes x y
  | child {y : Exchange} (hlive : x.hasEnded = false) (hturn : QuietTurn x y) : Goes x y
  | carries (side : Side) {r : Pipe × Sink × Option CopyEnd} (hgoing : (x.outlet side).copy = none)
      (hcarry : carry (x.outlet side).pipe (x.outlet side).sink = some r) :
      Goes x (x.withCarried side r)

/-- Ending the input copy changes nothing for the program's outputs. -/
theorem goes_endFeed (hgoing : x.feed.isOver = false) : Goes x x.endFeed := by
  refine .feeds rfl rfl (fun side ↦ by cases side <;> rfl) ?_
  simp only [feedLoad, endFeed, hgoing, List.length_nil, Bool.not_true, Bool.not_false,
    Bool.toNat_true, Bool.toNat_false]
  omega

theorem goes_of_stepFeedRead (h : x.stepFeedRead = some y) : Goes x y := by
  unfold stepFeedRead at h
  split at h
  · cases h
  · next hgoing =>
    simp only [Bool.or_eq_true, not_or, Bool.not_eq_true] at hgoing
    obtain ⟨⟨hover, hdrained⟩, -⟩ := hgoing
    rcases hread : x.io.stdin.read (chunk - x.feed.buffer.length) with ⟨result, stdin⟩
    rw [hread] at h
    have hsource := Source.of_read hread
    rcases result with e | _ | ⟨first, more⟩ <;> cases h
    · obtain rfl : stdin = x.io.stdin := hsource
      exact goes_endFeed hover
    · refine .feeds rfl rfl (fun side ↦ by cases side <;> rfl) ?_
      have hlength : x.io.stdin.bytes.length = stdin.bytes.length := congrArg List.length hsource
      simp [feedLoad, hdrained, hlength]
    · refine .feeds rfl rfl (fun side ↦ by cases side <;> rfl) ?_
      have hlength := congrArg List.length hsource
      simp only [List.length_append, List.length_cons] at hlength
      simp only [feedLoad, List.length_append, List.length_cons]
      omega

theorem goes_of_stepFeedWrite (h : x.stepFeedWrite = some y) : Goes x y := by
  unfold stepFeedWrite at h
  split at h
  · cases h
  · next hgoing =>
    have hover : x.feed.isOver = false := Bool.eq_false_iff.2 hgoing
    split at h
    · split at h <;> cases h
      exact goes_endFeed hover
    · next hfilled =>
      have hbuffer : x.feed.buffer ≠ [] := mt List.isEmpty_iff.2 hfilled
      split at h <;> cases h
      · exact goes_endFeed hover
      · next hwrite =>
        obtain ⟨hpos, hle⟩ := Pipe.write_pos hwrite hbuffer
        refine .feeds rfl rfl (fun side ↦ by cases side <;> rfl) ?_
        simp only [feedLoad, List.length_drop]
        omega

theorem goes_of_step {party : Party} (hquiet : x.IsQuiet) (h : x.step party = some y) :
    Goes x y := by
  have hcarries (side : Side) (h : x.step side.party = some y) : Goes x y := by
    rw [step_party] at h
    split at h
    · cases h
    · next hgoing =>
      obtain ⟨r, hcarry, rfl⟩ := Option.map_eq_some_iff.1 h
      exact .carries side (Option.not_isSome_iff_eq_none.1 hgoing) hcarry
  cases party with
  | feedRead => exact goes_of_stepFeedRead h
  | feedWrite => exact goes_of_stepFeedWrite h
  | child =>
    obtain ⟨hlive, hturn⟩ := quietTurn_of_stepChild hquiet h
    exact .child hlive hturn
  | output => exact hcarries .output h
  | diagnostics => exact hcarries .diagnostics h

/-- A client that goes away, all at once or one stream after the other. -/
inductive Loses (x : Exchange) : Exchange → Prop where
  | input : Loses x { x with io := { x.io with stdin := { bytes := [], fails := true } } }
  | output : Loses x { x with io := { x.io with stdout := x.io.stdout.lose } }
  | diagnostics : Loses x { x with io := { x.io with stderr := x.io.stderr.lose } }

/-- A step of an exchange: somebody takes a turn, or a stream of the client is lost. -/
inductive Proceeds (x : Exchange) : Exchange → Prop where
  | turn {party : Party} {y : Exchange} (h : x.step party = some y) : Proceeds x y
  | loses {y : Exchange} (h : Loses x y) : Proceeds x y

/-- What holds of an exchange at any time whose program does not wait for input. -/
structure IsSound (x : Exchange) : Prop where
  quiet : x.IsQuiet
  closed : ∀ side, (x.outlet side).pipe.isClosed = x.hasEnded
  outlet : ∀ side, (x.outlet side).IsSound

theorem Goes.outlet_step (h : Goes x y) (side : Side) :
    (x.outlet side).Step (y.outlet side) := by
  cases h with
  | feeds _ _ houtlet => rw [houtlet]; exact .stay
  | carries other hgoing hcarry =>
    rw [outlet_withCarried]
    split
    · next hside =>
      subst hside
      exact .carry hgoing hcarry
    · exact .stay
  | child hlive hturn =>
    cases hturn with
    | ends htodo =>
      rw [outlet_endChild]
      exact .close (by rw [outlet_rest, htodo]; rfl)
    | skips other htodo =>
      rw [outlet_skip htodo]
      exact .stay
    | writes other htodo hdata hwrite =>
      by_cases hside : side = other
      · subst hside
        rw [outlet_write_self]
        exact .write (rest_of_todo htodo hdata) hwrite Act.flatten_pieces_act
      · rw [outlet_write_of_ne htodo hside]
        exact .stay

theorem Loses.outlet_step (h : Loses x y) (side : Side) :
    (x.outlet side).Step (y.outlet side) := by
  cases h <;> cases side <;> first | exact .stay | exact .lose

theorem IsSound.goes (hsound : x.IsSound) (h : Goes x y) : y.IsSound := by
  refine ⟨?_, fun side ↦ ?_, fun side ↦ (hsound.outlet side).step (h.outlet_step side)⟩
  · cases h with
    | feeds hchild => rw [IsQuiet, hchild]; exact hsound.quiet
    | carries side => cases side <;> exact hsound.quiet
    | child _ hturn =>
      cases hturn with
      | ends => exact hsound.quiet
      | skips side htodo =>
        exact fun act hact ↦ hsound.quiet act (htodo ▸ List.mem_cons_of_mem _ hact)
      | writes side htodo =>
        refine List.forall_mem_cons.2 ⟨by cases side <;> exact Act.noConfusion, fun act hact ↦ ?_⟩
        exact hsound.quiet act (htodo ▸ List.mem_cons_of_mem _ hact)
  · have hclosed := hsound.closed side
    cases h with
    | feeds _ hended houtlet => rw [houtlet, hended, hclosed]
    | carries other hgoing hcarry =>
      have hended (r) : (x.withCarried other r).hasEnded = x.hasEnded := by cases other <;> rfl
      rw [outlet_withCarried, hended]
      split
      · next hside =>
        subst hside
        rw [← hclosed]
        exact isClosed_of_carry hcarry
      · exact hclosed
    | child hlive hturn =>
      cases hturn with
      | ends => rw [outlet_endChild]; rfl
      | skips => rw [outlet_withTodo]; exact hclosed
      | writes other htodo hdata hwrite =>
        have hended (p todo) : ((x.withPipe other p).withTodo todo).hasEnded = x.hasEnded := by
          cases other <;> rfl
        rw [outlet_withTodo, outlet_withPipe, hended]
        obtain ⟨-, rfl⟩ := Pipe.write_ok hwrite
        split
        · next hside => exact hside ▸ hclosed
        · exact hclosed

theorem IsSound.loses (hsound : x.IsSound) (h : Loses x y) : y.IsSound := by
  refine ⟨?_, fun side ↦ ?_, fun side ↦ (hsound.outlet side).step (h.outlet_step side)⟩
  · cases h <;> exact hsound.quiet
  · have hclosed := hsound.closed side
    cases h <;> cases side <;> exact hclosed

/-- Whatever happens, an outlet makes one of its steps, and what holds at any time holds then. -/
theorem IsSound.proceeds (hsound : x.IsSound) (h : Proceeds x y) :
    y.IsSound ∧ ∀ side, (x.outlet side).Step (y.outlet side) := by
  cases h with
  | turn h =>
    have hgoes := goes_of_step hsound.quiet h
    exact ⟨hsound.goes hgoes, hgoes.outlet_step⟩
  | loses h => exact ⟨hsound.loses h, h.outlet_step⟩

/-- What an exchange can come to, whoever takes turns and whenever the client goes away. -/
abbrev Reaches : Exchange → Exchange → Prop := ReflTransGen Proceeds

theorem Turns.reaches (h : Turns x y) : Reaches x y := by
  induction h with
  | refl => exact .refl
  | turn hstep _ ih => exact .head (.turn hstep) ih

/-- In any number of steps, each outlet makes a number of its steps. -/
theorem IsSound.reaches (hsound : x.IsSound) (h : Reaches x y) :
    y.IsSound ∧ ∀ side, ReflTransGen Outlet.Step (x.outlet side) (y.outlet side) := by
  induction h with
  | refl => exact ⟨hsound, fun _ ↦ .refl⟩
  | tail _ hproceeds ih =>
    obtain ⟨hlast, hstep⟩ := ih.1.proceeds hproceeds
    exact ⟨hlast, fun side ↦ (ih.2 side).tail (hstep side)⟩

/-! ## Waiting for ever -/

/-- An exchange that is over has ended copies and an ended program. -/
theorem isOver_iff : x.isOver = true ↔
    (∀ side, (x.outlet side).copy.isSome = true) ∧ x.hasEnded = true := by
  rw [isOver, Bool.and_eq_true, Bool.and_eq_true]
  refine and_congr_left fun _ ↦ ⟨fun h side ↦ ?_, fun h ↦ ⟨h .output, h .diagnostics⟩⟩
  cases side
  · exact h.1
  · exact h.2

/-- An exchange that is jammed is never over. -/
theorem IsSound.isOver_of_isJammed (hsound : x.IsSound) {side : Side}
    (hjam : (x.outlet side).IsJammed) (hreaches : Reaches x y) : y.isOver = false := by
  obtain ⟨hlast, hsteps⟩ := hsound.reaches hreaches
  have hopen := ((hjam.steps (hsteps side)).isClosed (hlast.outlet side)).symm.trans
    (hlast.closed side)
  exact Bool.eq_false_iff.2 fun hover ↦
    Bool.false_ne_true (hopen.trans (isOver_iff.1 hover).2)

/-- An exchange with an outlet that is doomed is never over. -/
theorem IsSound.isOver_of_doomed (hsound : x.IsSound) (side : Side) (limit : Nat)
    (hdoomed : (x.outlet side).Doomed limit) (hreaches : Reaches x y) : y.isOver = false := by
  have hlast : y.IsSound ∧ (y.outlet side).Doomed limit := by
    induction hreaches with
    | refl => exact ⟨hsound, hdoomed⟩
    | tail _ hproceeds ih =>
      obtain ⟨hnext, hstep⟩ := ih.1.proceeds hproceeds
      exact ⟨hnext, ih.2.step (ih.1.outlet side) (hstep side)⟩
  cases hlast.2 with
  | jammed hjam => exact hlast.1.isOver_of_isJammed hjam .refl
  | going hgoing =>
    refine Bool.eq_false_iff.2 fun hover ↦ ?_
    have hended := (isOver_iff.1 hover).1 side
    rw [hgoing] at hended
    cases hended

theorem isSome_step_party {side : Side} (hgoing : (x.outlet side).copy = none)
    (hcarry : (carry (x.outlet side).pipe (x.outlet side).sink).isSome = true) :
    (x.step side.party).isSome = true := by
  rw [step_party, hgoing, if_neg (by decide), Option.isSome_map, hcarry]

/-- **Progress.**  An exchange that is neither over nor jammed goes on. -/
theorem IsSound.exists_step (hsound : x.IsSound) (hover : x.isOver = false)
    (hjam : ∀ side, ¬ (x.outlet side).IsJammed) : ∃ party, (x.step party).isSome = true := by
  cases hended : x.hasEnded with
  | true =>
    -- A copy is left that has not ended; its pipe is closed, so it does not wait.
    have hcopies : ¬ ∀ side, (x.outlet side).copy.isSome = true :=
      fun hall ↦ Bool.eq_false_iff.1 hover (isOver_iff.2 ⟨hall, hended⟩)
    obtain ⟨side, hgoing⟩ := Classical.not_forall.1 hcopies
    refine ⟨side.party, isSome_step_party (Option.not_isSome_iff_eq_none.1 hgoing) ?_⟩
    rw [carry_eq, if_pos ((hsound.closed side).trans hended)]
    split <;> rfl
  | false =>
    cases hchild : x.step .child with
    | some y => exact ⟨.child, Option.isSome_iff_exists.2 ⟨y, hchild⟩⟩
    | none =>
      have hopen (side) : (x.outlet side).pipe.isClosed = false := (hsound.closed side).trans hended
      obtain ⟨side, hfull, hrest⟩ := exists_full_of_stepChild hsound.quiet hended hopen hchild
      obtain ⟨hgoing, hcarry⟩ := Outlet.exists_carry (hsound.outlet side) (hopen side) hfull hrest
        (hjam side)
      exact ⟨side.party, isSome_step_party hgoing hcarry⟩

/-! ## Running out of turns -/

/-- How much an exchange still has to do.  A byte counts for less the further it has come. -/
def load (x : Exchange) : Nat :=
  x.feedLoad + (!x.hasEnded).toNat + x.child.todo.length +
    ((x.outlet .output).load + (x.outlet .diagnostics).load)

theorem load_lt_of_outlet (side : Side) (hload : (y.outlet side).load < (x.outlet side).load)
    (hother : ∀ other, other ≠ side → y.outlet other = x.outlet other)
    (hfeed : y.feedLoad = x.feedLoad) (hended : y.hasEnded = x.hasEnded)
    (htodo : y.child.todo.length = x.child.todo.length) : y.load < x.load := by
  cases side with
  | output =>
    rw [load, load, hother .diagnostics (by decide), hfeed, hended, htodo]
    omega
  | diagnostics =>
    rw [load, load, hother .output (by decide), hfeed, hended, htodo]
    omega

/-- Every turn leaves less to do. -/
theorem Goes.load_lt (h : Goes x y) : y.load < x.load := by
  cases h with
  | feeds hchild hended houtlet hload =>
    rw [load, load, hchild, hended, houtlet, houtlet]
    omega
  | carries side hgoing hcarry =>
    refine load_lt_of_outlet side ?_ (fun other hother ↦ ?_) ?_ ?_ ?_
    · rw [outlet_withCarried, if_pos rfl]
      exact Outlet.load_carry hgoing hcarry
    · rw [outlet_withCarried, if_neg hother]
    all_goals cases side <;> rfl
  | child hlive hturn =>
    cases hturn with
    | ends =>
      have hended : x.endChild.hasEnded = true := rfl
      rw [load, load, outlet_endChild, outlet_endChild, hlive, hended]
      exact Nat.add_lt_add_right (Nat.add_lt_add_right (Nat.lt_succ_self _) _) _
    | skips side htodo =>
      rw [load, load, outlet_skip htodo, outlet_skip htodo, htodo]
      exact Nat.add_lt_add_right (Nat.lt_succ_self _) _
    | writes side htodo hdata hwrite =>
      refine load_lt_of_outlet side ?_ (fun other ↦ outlet_write_of_ne htodo) ?_ ?_ ?_
      · rw [outlet_write_self]
        exact Outlet.load_write hdata (rest_of_todo htodo hdata) hwrite Act.flatten_pieces_act
      · cases side <;> rfl
      · cases side <;> rfl
      · rw [htodo]
        rfl

/-- An exchange in which nobody can take a turn. -/
def IsStuck (x : Exchange) : Prop := ∀ party, x.step party = none

theorem IsSound.of_turn (hsound : x.IsSound) (party : Party) : (x.turn party).IsSound ∧
    (x.turn party).load ≤ x.load ∧
      ((x.step party).isSome = true → (x.turn party).load < x.load) := by
  rw [turn]
  cases hstep : x.step party with
  | none => exact ⟨hsound, Nat.le_refl _, fun htaken ↦ by cases htaken⟩
  | some y =>
    have hgoes := goes_of_step hsound.quiet hstep
    exact ⟨hsound.goes hgoes, Nat.le_of_lt hgoes.load_lt, fun _ ↦ hgoes.load_lt⟩

/-- A round leaves less to do, unless nobody in it can take a turn. -/
theorem IsSound.of_foldl_turn (hsound : x.IsSound) (parties : List Party) :
    (parties.foldl turn x).IsSound ∧ (parties.foldl turn x).load ≤ x.load ∧
      ((∃ party ∈ parties, (x.step party).isSome = true) →
        (parties.foldl turn x).load < x.load) := by
  induction parties generalizing x with
  | nil =>
    refine ⟨hsound, Nat.le_refl _, ?_⟩
    rintro ⟨_, hmem, -⟩
    cases hmem
  | cons party parties ih =>
    obtain ⟨hturned, hle, hlt⟩ := hsound.of_turn party
    obtain ⟨hrest, hle', hlt'⟩ := ih hturned
    refine ⟨hrest, Nat.le_trans hle' hle, ?_⟩
    rintro ⟨taken, hmem, htaken⟩
    cases hstep : x.step party with
    | some y => exact Nat.lt_of_le_of_lt hle' (hlt (by rw [hstep]; rfl))
    | none =>
      have hsame : x.turn party = x := by rw [turn, hstep]; rfl
      rw [List.foldl_cons]
      rw [hsame] at hlt' ⊢
      rcases List.mem_cons.1 hmem with rfl | hmem
      · rw [hstep] at htaken
        cases htaken
      · exact hlt' ⟨taken, hmem, htaken⟩

theorem mem_round (party : Party) : party ∈ round := by
  cases party <;> decide

/-- Rounds lead to an exchange that is over, or in which nobody can take a turn. -/
theorem IsSound.rounds_settle (hsound : x.IsSound) {fuel : Nat} (hfuel : x.load < fuel) :
    (rounds fuel x).isOver = true ∨ (rounds fuel x).IsStuck := by
  induction fuel generalizing x with
  | zero => cases hfuel
  | succ fuel ih =>
    rw [rounds]
    split
    · next hover => exact .inl hover
    · split
      · next hstuck =>
        rw [List.all_eq_true] at hstuck
        exact .inr fun party ↦ Option.isNone_iff_eq_none.1 (hstuck party (mem_round party))
      · next hgoing =>
        obtain ⟨hsound', -, hlt⟩ := hsound.of_foldl_turn round
        refine ih hsound' (Nat.lt_of_lt_of_le (hlt ?_) (Nat.le_of_lt_succ hfuel))
        simpa [List.all_eq_true, Option.isSome_iff_ne_none] using hgoing

/-- An exchange that is never over comes to a state in which nobody can take a turn. -/
theorem IsSound.exists_isStuck (hsound : x.IsSound)
    (hnever : ∀ y, Turns x y → y.isOver = false) : ∃ y, Turns x y ∧ y.IsStuck := by
  have hturns := turns_rounds (x.load + 1) x
  refine ⟨_, hturns, (hsound.rounds_settle (Nat.lt_succ_self _)).resolve_left ?_⟩
  rw [hnever _ hturns]
  exact Bool.false_ne_true

/-! ## Outlets that can jam -/

/-- A program gets to write its first piece to an outlet, if nothing jams before: until then it is
kept waiting by the other outlet at most, whose copy goes on. -/
theorem IsSound.exists_filled (hsound : x.IsSound) (side : Side)
    (hrest : (x.outlet side).rest ≠ []) (hempty : (x.outlet side).pipe.bytes = []) :
    ∃ y, Turns x y ∧ y.IsSound ∧
      ((∃ other, (y.outlet other).IsJammed) ∨ (x.outlet side).Filled (y.outlet side)) := by
  induction hload : x.load using Nat.strongRecOn generalizing x with
  | ind load ih =>
  by_cases hjam : ∃ other, (x.outlet other).IsJammed
  · exact ⟨x, .refl x, hsound, .inl hjam⟩
  have hlive : x.hasEnded = false := by
    refine Bool.eq_false_iff.2 fun hended ↦ hrest ?_
    exact (hsound.outlet side).done ((hsound.closed side).trans hended)
  have hopen (other) : (x.outlet other).pipe.isClosed = false := (hsound.closed other).trans hlive
  -- A turn that leaves the outlet alone leaves less to do before the piece is written.
  have hnext (party : Party) (y : Exchange) (hstep : x.step party = some y)
      (houtlet : y.outlet side = x.outlet side) : ∃ z, Turns x z ∧ z.IsSound ∧
        ((∃ other, (z.outlet other).IsJammed) ∨ (x.outlet side).Filled (z.outlet side)) := by
    have hgoes := goes_of_step hsound.quiet hstep
    obtain ⟨z, hturns, hend⟩ := ih y.load (hload ▸ hgoes.load_lt) (hsound.goes hgoes)
      (houtlet ▸ hrest) (houtlet ▸ hempty) rfl
    exact ⟨z, Turns.turn hstep hturns, houtlet ▸ hend⟩
  cases hstep : x.step .child with
  | none =>
    obtain ⟨other, hfull, hpositive⟩ := exists_full_of_stepChild hsound.quiet hlive hopen hstep
    obtain ⟨hgoing, hcarry⟩ := Outlet.exists_carry (hsound.outlet other) (hopen other) hfull
      hpositive (not_exists.1 hjam other)
    obtain ⟨r, hcarry⟩ := Option.isSome_iff_exists.1 hcarry
    have hside : side ≠ other := by
      rintro rfl
      rw [hempty] at hfull
      exact absurd (hsound.outlet side).capacity (Nat.not_lt_of_le hfull)
    refine hnext other.party (x.withCarried other r) ?_ ?_
    · rw [step_party, hgoing, hcarry]
      rfl
    · rw [outlet_withCarried, if_neg hside]
  | some y =>
    have hsound' := hsound.goes (goes_of_step hsound.quiet hstep)
    obtain ⟨-, hturn⟩ := quietTurn_of_stepChild hsound.quiet hstep
    cases hturn with
    | ends htodo =>
      rw [outlet_rest, htodo] at hrest
      exact absurd rfl hrest
    | skips other htodo => exact hnext .child _ hstep (outlet_skip htodo side)
    | writes other htodo hdata hwrite =>
      by_cases hside : side = other
      · subst hside
        refine ⟨_, .turn hstep (.refl _), hsound', .inr ?_⟩
        rw [outlet_write_self]
        exact Outlet.filled_of_write hempty (rest_of_todo htodo hdata) hwrite
          Act.flatten_pieces_act
      · exact hnext .child _ hstep (outlet_write_of_ne htodo hside)

/-- A copy whose client takes nothing fails at its next read, and its outlet jams if more is left
behind that read than the pipe holds. -/
theorem exists_isJammed_of_lost (x : Exchange) {side : Side}
    (hgoing : (x.outlet side).copy = none) (hfilled : (x.outlet side).pipe.bytes ≠ [])
    (hlost : ¬ (x.outlet side).sink.Fits ((x.outlet side).pipe.bytes.take chunk))
    (hlong : (x.outlet side).pipe.capacity + min chunk (x.outlet side).pipe.bytes.length <
      (x.outlet side).left) :
    ∃ y, x.step side.party = some y ∧ (y.outlet side).IsJammed := by
  have hcarry := carry_eq (x.outlet side).pipe (x.outlet side).sink
  rw [if_neg hfilled, if_neg hlost] at hcarry
  have hstep := step_party x side
  rw [hgoing, if_neg (by decide), hcarry] at hstep
  refine ⟨_, hstep, ?_⟩
  rw [outlet_withCarried, if_pos rfl]
  refine ⟨⟨_, rfl⟩, ?_⟩
  rw [Outlet.left] at hlong ⊢
  rw [List.length_drop]
  dsimp only
  omega

/-- A copy whose client goes away before it has read anything fails at its first read. -/
theorem IsSound.exists_isJammed (hsound : x.IsSound) (side : Side)
    (hempty : (x.outlet side).pipe.bytes = []) (hgoing : (x.outlet side).copy = none)
    (hlong : (x.outlet side).pipe.capacity + min chunk (min (x.outlet side).pipe.capacity
      ((x.outlet side).rest.headD []).length) < (x.outlet side).left) :
    ∃ y, Reaches x y ∧ y.IsSound ∧ ∃ other, (y.outlet other).IsJammed := by
  obtain ⟨y, hloses, houtlet⟩ : ∃ y, Loses x y ∧
      y.outlet side = { x.outlet side with sink := (x.outlet side).sink.lose } := by
    cases side with
    | output => exact ⟨_, .output, rfl⟩
    | diagnostics => exact ⟨_, .diagnostics, rfl⟩
  have hrest : (x.outlet side).rest ≠ [] := by
    intro hnil
    rw [Outlet.left, hempty, hnil] at hlong
    exact Nat.not_lt_zero _ hlong
  have hhead : 0 < ((x.outlet side).rest.headD []).length := by
    obtain ⟨first, more, hfirst⟩ := List.exists_cons_of_ne_nil hrest
    have hmem : first ∈ Act.pieces side x.child.todo := by
      rw [← outlet_rest, hfirst]
      exact List.mem_cons_self
    rw [hfirst]
    exact List.length_pos_iff.2 (Act.ne_nil_of_mem_pieces hmem)
  obtain ⟨z, hturns, hz, hend⟩ := (hsound.loses hloses).exists_filled side
    (houtlet ▸ hrest) (houtlet ▸ hempty)
  have hreaches : Reaches x z := .head (.loses hloses) hturns.reaches
  rcases hend with hjam | hfilled
  · exact ⟨z, hreaches, hz, hjam⟩
  rw [houtlet] at hfilled
  have hcapacity := (hsound.outlet side).capacity
  have hbytes := hfilled.bytes
  have hpositive : (z.outlet side).pipe.bytes ≠ [] := by
    refine List.ne_nil_of_length_pos ?_
    rw [hbytes]
    exact Nat.lt_min.2 ⟨hcapacity, hhead⟩
  have hlost : ¬ (z.outlet side).sink.Fits ((z.outlet side).pipe.bytes.take chunk) := by
    rw [hfilled.sink]
    refine Sink.not_fits_lose fun htake ↦ hpositive ?_
    exact (List.take_eq_nil_iff.1 htake).resolve_left (by decide)
  have hleft : (z.outlet side).left = (x.outlet side).left := hfilled.left
  obtain ⟨z', hstep, hjam⟩ := z.exists_isJammed_of_lost (hfilled.copy.trans hgoing) hpositive hlost
    (by rw [hleft, hfilled.capacity, hbytes]; exact hlong)
  exact ⟨z', hreaches.tail (.turn hstep), (hz.proceeds (.turn hstep)).1, side, hjam⟩

/-- The start of an exchange over pipes of any capacities. -/
def startWith (io : PackIo) (child : Child) (inputCapacity : Nat) (capacity : Side → Nat) :
    Exchange :=
  { start io child with
    input := ⟨inputCapacity, [], false⟩
    output := ⟨capacity .output, [], false⟩
    diagnostics := ⟨capacity .diagnostics, [], false⟩ }

theorem outlet_startWith {io : PackIo} {child : Child} {inputCapacity : Nat}
    {capacity : Side → Nat} (side : Side) :
    (startWith io child inputCapacity capacity).outlet side =
      ⟨⟨capacity side, [], false⟩, side.sink io, none, Act.pieces side child.todo⟩ := by
  cases side <;> rfl

theorem isSound_startWith {io : PackIo} {child : Child} {inputCapacity : Nat}
    (capacity : Side → Nat) (hquiet : ∀ act ∈ child.todo, act ≠ .echo)
    (hcapacity : ∀ side, 0 < capacity side) :
    (startWith io child inputCapacity capacity).IsSound := by
  refine ⟨hquiet, fun side ↦ ?_, fun side ↦ ?_⟩
  · rw [outlet_startWith]
    rfl
  · rw [outlet_startWith]
    refine ⟨hcapacity side, Nat.zero_le _, fun hclosed ↦ ?_, fun hfinished ↦ ?_⟩
    · cases hclosed
    · cases hfinished

/-- **Dead clients.**  A program that writes any output, does not wait for input and then ends, over
pipes of any capacities: whoever takes turns, and whenever the client's streams begin to fail, the
exchange goes on until it is over exactly if neither output of the program is longer than its pipe
and the least that a copy can have read before it fails.  That is what the first piece of the output
puts into the pipe, up to what a copy carries at once. -/
theorem never_wedged_iff (io : PackIo) (child : Child) (inputCapacity : Nat)
    (capacity : Side → Nat) (hquiet : ∀ act ∈ child.todo, act ≠ .echo)
    (hcapacity : ∀ side, 0 < capacity side) :
    (∀ y, Reaches (startWith io child inputCapacity capacity) y → y.isOver = false →
      ∃ party, (y.step party).isSome = true) ↔
    ∀ side, (Act.pieces side child.todo).flatten.length ≤ capacity side +
      min chunk (min (capacity side) ((Act.pieces side child.todo).headD []).length) := by
  have hsound : (startWith io child inputCapacity capacity).IsSound :=
    isSound_startWith capacity hquiet hcapacity
  constructor
  · intro hgoes side
    refine Nat.le_of_not_lt fun hlong ↦ ?_
    obtain ⟨y, hreaches, hy, other, hjam⟩ := hsound.exists_isJammed side
      (by rw [outlet_startWith]) (by rw [outlet_startWith])
      (by rw [outlet_startWith, Outlet.left]; exact Nat.lt_of_lt_of_eq hlong (Nat.zero_add _).symm)
    have hnever (z) (hturns : Turns y z) : z.isOver = false :=
      hy.isOver_of_isJammed hjam hturns.reaches
    obtain ⟨z, hturns, hstuck⟩ := hy.exists_isStuck hnever
    obtain ⟨party, htaken⟩ := hgoes z (hreaches.trans hturns.reaches) (hnever z hturns)
    rw [hstuck party] at htaken
    cases htaken
  · intro hshort y hreaches hover
    obtain ⟨hy, hsteps⟩ := hsound.reaches hreaches
    refine hy.exists_step hover fun side ↦ ?_
    have hdrawn : ((startWith io child inputCapacity capacity).outlet side).Drawn (capacity side)
        ((Act.pieces side child.todo).headD []).length
        (Act.pieces side child.todo).flatten.length := by
      rw [outlet_startWith]
      exact .untouched rfl (fun e hfailed ↦ by cases hfailed) (Nat.zero_add _) (.inl ⟨rfl, rfl⟩)
    exact (hdrawn.steps (hsteps side)).not_isJammed (hshort side)

/-- Two bytes of each output over pipes of one byte: the first read makes room for the rest. -/
theorem short_output_never_wedges :
    let io : PackIo := ⟨{}, {}, {}, []⟩
    let child : Child := ⟨[.print [1], .complain [2, 3], .print [4]], .status 0⟩
    (∀ act ∈ child.todo, act ≠ .echo) ∧ ∀ y, Reaches (startWith io child 1 fun _ ↦ 1) y →
      y.isOver = false → ∃ party, (y.step party).isSome = true := by
  intro io child
  have hquiet : ∀ act ∈ child.todo, act ≠ .echo := by decide
  refine ⟨hquiet, (never_wedged_iff io child 1 (fun _ ↦ 1) hquiet fun _ ↦ Nat.one_pos).2 ?_⟩
  intro side
  cases side <;> decide

/-- A client that takes no more of an output than `limit` bytes wedges an exchange in every order of
turns, if more is left than the pipe holds and a copy carries at once. -/
theorem isOver_of_long_output {io : PackIo} {child : Child} {inputCapacity : Nat}
    (capacity : Side → Nat) (side : Side) (limit : Nat)
    (hquiet : ∀ act ∈ child.todo, act ≠ .echo) (hcapacity : ∀ side, 0 < capacity side)
    (hlimit : (side.sink io).limit = some limit)
    (hwritten : (side.sink io).written.length ≤ limit)
    (hlong : capacity side + chunk + limit <
      (side.sink io).written.length + (Act.pieces side child.todo).flatten.length)
    (hreaches : Reaches (startWith io child inputCapacity capacity) y) : y.isOver = false := by
  refine (isSound_startWith capacity hquiet hcapacity).isOver_of_doomed side limit ?_ hreaches
  rw [outlet_startWith]
  refine .going rfl limit (Nat.le_refl _) hlimit hwritten ?_
  rw [Outlet.left, List.length_nil, Nat.zero_add]
  exact hlong

/-- A fetch whose client goes away after four bytes, while the program has much more to print, is
never over, and comes to a state in which nobody can take a turn. -/
theorem cut_fetch_is_wedged :
    let x : Exchange := start ⟨{}, { limit := some 4 }, {}, []⟩
      ⟨[.print (List.replicate 300000 120), .complain []], .status 0⟩
    (∀ y, Reaches x y → y.isOver = false) ∧ ∃ y, Turns x y ∧ y.IsStuck := by
  intro x
  have hquiet : ∀ act ∈ x.child.todo, act ≠ .echo := by
    intro act hact
    rcases List.mem_cons.1 hact with rfl | hact
    · exact Act.noConfusion
    · rcases List.mem_singleton.1 hact with rfl
      exact Act.noConfusion
  have hlong : (Act.pieces .output x.child.todo).flatten.length = 300000 := by
    have hprinted : (Act.pieces .output x.child.todo).flatten = List.replicate 300000 120 ++
      (Act.pieces .output [.complain []]).flatten := Act.flatten_pieces_act
    rw [hprinted, List.length_append, List.length_replicate]
    rfl
  have hnever (y) (hreaches : Reaches x y) : y.isOver = false := by
    refine isOver_of_long_output (fun _ ↦ pipeCapacity) .output 4 hquiet (fun _ ↦ by decide) rfl
      (Nat.zero_le _) ?_ hreaches
    rw [hlong]
    decide
  refine ⟨hnever, IsSound.exists_isStuck ?_ fun y hturns ↦ hnever y hturns.reaches⟩
  exact isSound_startWith (fun _ ↦ pipeCapacity) hquiet fun _ ↦ by decide

end Exchange

end Git

end GitGateway
