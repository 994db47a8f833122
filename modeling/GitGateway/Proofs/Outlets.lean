import GitGateway.Proofs.Exchanges
import Mathlib.Logic.Relation

/-!
# Outlets of a program

A program that writes is looked at through its two outlets, each a pipe with the copy behind it and
with what is still to be written.  Whatever happens to an exchange is one of a few steps for each of
them (`Outlet.Step`).

An outlet is **jammed** if its copy has failed and more is left than its pipe holds; that stays so
(`Outlet.IsJammed.step`).  An outlet of which no more is left than its pipe holds and the first read
takes never jams (`Outlet.Drawn`).  One whose client takes a part only cannot but jam if much more is
left (`Outlet.Doomed`).  In a full one that is not jammed the copy goes on (`Outlet.exists_carry`).
-/

namespace GitGateway

/-- A sink whose client goes away: it takes nothing more. -/
def Sink.lose (s : Sink) : Sink := { s with limit := some s.written.length }

theorem Sink.not_fits_lose {s : Sink} {data : List UInt8} (h : data ≠ []) :
    ¬ s.lose.Fits data := by
  have hnone : s.lose.accepted data = [] := by
    rw [accepted_of_limit rfl]
    simp [lose]
  exact fun hfits ↦ h (hfits.symm.trans hnone)

theorem Sink.length_written_of_fits {s : Sink} {data : List UInt8} {l : Nat}
    (hlimit : s.limit = some l) (hfits : s.Fits data) :
    (s.receive data).written.length = s.written.length + data.length ∧
      (data.length = 0 ∨ s.written.length + data.length ≤ l) := by
  have haccepted : s.accepted data = data := hfits
  have htake : s.accepted data = data.take (l - s.written.length) := accepted_of_limit hlimit
  have hlength := congrArg List.length (haccepted.symm.trans htake)
  rw [List.length_take] at hlength
  rw [receive_written, haccepted, List.length_append]
  exact ⟨rfl, by omega⟩

namespace Git

/-! ## The two outputs of a program -/

/-- The two outputs of a program. -/
inductive Side where
  | output
  | diagnostics
deriving DecidableEq, Repr

namespace Side

/-- The client's stream for what comes out. -/
def sink (io : PackIo) : Side → Sink
  | output => io.stdout
  | diagnostics => io.stderr

/-- The party that carries what comes out. -/
def party : Side → Party
  | output => .output
  | diagnostics => .diagnostics

/-- The act that writes. -/
def act : Side → List UInt8 → Act
  | output => .print
  | diagnostics => .complain

end Side

namespace Act

/-- What an act writes to one of the outputs, if it writes anything there. -/
def piece? : Side → Act → Option (List UInt8)
  | .output, .print data | .diagnostics, .complain data => if data.isEmpty then none else some data
  | _, _ => none

/-- What a program writes to one of its outputs, in the pieces in which it writes it. -/
def pieces (side : Side) (todo : List Act) : List (List UInt8) := todo.filterMap (piece? side)

variable {side other : Side} {act : Act} {todo : List Act} {data : List UInt8}

theorem piece?_act (hdata : data ≠ []) :
    piece? side (other.act data) = if side = other then some data else none := by
  cases side <;> cases other <;> simp [piece?, Side.act, hdata]

theorem piece?_act_nil : piece? side (other.act []) = none := by
  cases side <;> cases other <;> rfl

theorem pieces_cons_of_none (h : piece? side act = none) :
    pieces side (act :: todo) = pieces side todo :=
  List.filterMap_cons_none h

theorem pieces_cons_of_some (h : piece? side act = some data) :
    pieces side (act :: todo) = data :: pieces side todo :=
  List.filterMap_cons_some h

/-- Pieces are not empty. -/
theorem ne_nil_of_mem_pieces (h : data ∈ pieces side todo) : data ≠ [] := by
  obtain ⟨act, -, hact⟩ := List.mem_filterMap.1 h
  cases side <;> cases act <;> simp [piece?] at hact <;>
    · obtain ⟨hne, rfl⟩ := hact
      exact hne

theorem flatten_pieces_act : (pieces side (side.act data :: todo)).flatten =
    data ++ (pieces side todo).flatten := by
  by_cases hdata : data = []
  · subst hdata
    rw [pieces_cons_of_none piece?_act_nil, List.nil_append]
  · rw [pieces_cons_of_some ((piece?_act hdata).trans (if_pos rfl)), List.flatten_cons]

theorem pieces_act_of_ne (h : side ≠ other) :
    pieces side (other.act data :: todo) = pieces side todo := by
  by_cases hdata : data = []
  · subst hdata
    exact pieces_cons_of_none piece?_act_nil
  · exact pieces_cons_of_none ((piece?_act hdata).trans (if_neg h))

end Act

/-! ## Outlets -/

/-- One output of a program on its way to the client. -/
structure Outlet where
  pipe : Pipe
  sink : Sink
  /-- How the copy ended, once it has. -/
  copy : Option CopyEnd
  /-- What the program still writes, in pieces. -/
  rest : List (List UInt8)

namespace Exchange

/-- A copy that finds something takes as much as it carries at once, and fails if the client does
not take all of it; one that finds nothing has to wait, until the pipe is closed. -/
theorem carry_eq (pipe : Pipe) (sink : Sink) : carry pipe sink =
    if pipe.bytes = [] then
      if pipe.isClosed = true then some (pipe, sink, some .finished) else none
    else some ({ pipe with bytes := pipe.bytes.drop chunk }, sink.receive (pipe.bytes.take chunk),
      if sink.Fits (pipe.bytes.take chunk) then none else some (.failed .clientGone)) := by
  obtain ⟨capacity, bytes, isClosed⟩ := pipe
  cases bytes with
  | nil => cases isClosed <;> rfl
  | cons first more =>
    have hread : Pipe.read ⟨capacity, first :: more, isClosed⟩ chunk =
        (.ready (first :: more.take (chunk - 1)),
          ⟨capacity, (first :: more).drop chunk, isClosed⟩) := rfl
    rw [if_neg (List.cons_ne_nil _ _), carry, hread]
    have htake : (first :: more).take chunk = first :: more.take (chunk - 1) := rfl
    dsimp only
    rw [htake, Sink.writeAll_eq]
    by_cases hfits : sink.Fits (first :: more.take (chunk - 1))
    · rw [if_pos hfits, if_pos hfits]
    · rw [if_neg hfits, if_neg hfits]

theorem isClosed_of_carry {pipe : Pipe} {sink : Sink} {r : Pipe × Sink × Option CopyEnd}
    (h : carry pipe sink = some r) : r.1.isClosed = pipe.isClosed := by
  rw [carry_eq] at h
  split at h
  · split at h <;> cases h
    rfl
  · cases h
    rfl

end Exchange

namespace Outlet

variable {o o' : Outlet}

/-- How many bytes no copy has taken. -/
def left (o : Outlet) : Nat := o.pipe.bytes.length + o.rest.flatten.length

/-- What can happen to an outlet. -/
inductive Step (o : Outlet) : Outlet → Prop where
  | stay : Step o o
  | lose : Step o { o with sink := o.sink.lose }
  | close (hrest : o.rest = []) : Step o { o with pipe := o.pipe.close }
  | write {data : List UInt8} {more rest : List (List UInt8)} {n : Nat} {pipe : Pipe}
      (hrest : o.rest = data :: more) (hwrite : o.pipe.write data = (.ready (.ok n), pipe))
      (hleft : rest.flatten = data.drop n ++ more.flatten) : Step o { o with pipe, rest }
  | carry {pipe : Pipe} {sink : Sink} {copy : Option CopyEnd} (hgoing : o.copy = none)
      (hcarry : Exchange.carry o.pipe o.sink = some (pipe, sink, copy)) :
      Step o { o with pipe, sink, copy }

/-- What holds of an outlet at any time. -/
structure IsSound (o : Outlet) : Prop where
  capacity : 0 < o.pipe.capacity
  fits : o.pipe.bytes.length ≤ o.pipe.capacity
  done : o.pipe.isClosed = true → o.rest = []
  finished : o.copy = some .finished → o.pipe.isClosed = true

theorem IsSound.step (hsound : o.IsSound) (h : Step o o') : o'.IsSound := by
  cases h with
  | stay => exact hsound
  | lose => exact ⟨hsound.capacity, hsound.fits, hsound.done, hsound.finished⟩
  | close hrest => exact ⟨hsound.capacity, hsound.fits, fun _ ↦ hrest, fun _ ↦ rfl⟩
  | write hrest hwrite hleft =>
    obtain ⟨hopen, hpipe⟩ := Pipe.write_ok hwrite
    have hn := Pipe.write_length hwrite
    subst hpipe
    refine ⟨hsound.capacity, ?_, fun hclosed ↦ ?_, hsound.finished⟩
    · have hfits := hsound.fits
      rw [Pipe.room] at hn
      rw [List.length_append, List.length_take]
      dsimp only
      omega
    · exact absurd (hopen.symm.trans hclosed) Bool.false_ne_true
  | carry hgoing hcarry =>
    rw [Exchange.carry_eq] at hcarry
    split at hcarry
    · split at hcarry <;> cases hcarry
      next hclosed => exact ⟨hsound.capacity, hsound.fits, hsound.done, fun _ ↦ hclosed⟩
    · cases hcarry
      refine ⟨hsound.capacity, ?_, hsound.done, fun hfinished ↦ ?_⟩
      · rw [List.length_drop]
        exact Nat.le_trans (Nat.sub_le _ _) hsound.fits
      · dsimp only at hfinished
        split at hfinished <;> cases hfinished

/-- An outlet whose copy has failed, and of which more is left than its pipe holds. -/
def IsJammed (o : Outlet) : Prop :=
  (∃ e, o.copy = some (.failed e)) ∧ o.pipe.capacity < o.left

/-- Writing moves bytes into the pipe. -/
theorem left_write {data : List UInt8} {more rest : List (List UInt8)} {n : Nat} {pipe : Pipe}
    (hrest : o.rest = data :: more) (hwrite : o.pipe.write data = (.ready (.ok n), pipe))
    (hleft : rest.flatten = data.drop n ++ more.flatten) :
    ({ o with pipe, rest } : Outlet).left = o.left := by
  obtain ⟨-, rfl⟩ := Pipe.write_ok hwrite
  have hflatten := congrArg List.length (List.take_append_drop n data)
  rw [List.length_append] at hflatten
  rw [left, left, hrest, hleft, List.flatten_cons]
  simp only [List.length_append]
  omega

/-- Nobody clears an outlet that is jammed. -/
theorem IsJammed.step (hjam : o.IsJammed) (h : Step o o') : o'.IsJammed := by
  cases h with
  | stay | lose | close => exact hjam
  | write hrest hwrite hleft =>
    refine ⟨hjam.1, ?_⟩
    rw [left_write hrest hwrite hleft]
    obtain ⟨-, rfl⟩ := Pipe.write_ok hwrite
    exact hjam.2
  | carry hgoing =>
    obtain ⟨e, hfailed⟩ := hjam.1
    cases hgoing.symm.trans hfailed

theorem IsJammed.steps (hjam : o.IsJammed) (h : Relation.ReflTransGen Step o o') :
    o'.IsJammed := by
  induction h with
  | refl => exact hjam
  | tail _ hstep ih => exact ih.step hstep

/-- The program waits for an outlet that is jammed. -/
theorem IsJammed.isClosed (hjam : o.IsJammed) (hsound : o.IsSound) : o.pipe.isClosed = false := by
  refine Bool.eq_false_iff.2 fun hclosed ↦ ?_
  have hlong := hjam.2
  rw [left, hsound.done hclosed] at hlong
  exact absurd hsound.fits (Nat.not_le_of_lt hlong)

/-- An outlet into whose pipe nothing more fits has a copy that goes on, unless it is jammed. -/
theorem exists_carry (hsound : o.IsSound) (hopen : o.pipe.isClosed = false)
    (hfull : o.pipe.capacity ≤ o.pipe.bytes.length) (hrest : 0 < o.rest.flatten.length)
    (hjam : ¬ o.IsJammed) : o.copy = none ∧ (Exchange.carry o.pipe o.sink).isSome = true := by
  have hbytes : o.pipe.bytes ≠ [] :=
    List.ne_nil_of_length_pos (Nat.lt_of_lt_of_le hsound.capacity hfull)
  rcases hcopy : o.copy with _ | _ | e
  · rw [Exchange.carry_eq, if_neg hbytes]
    exact ⟨rfl, rfl⟩
  · cases hopen.symm.trans (hsound.finished hcopy)
  · refine absurd ⟨⟨e, hcopy⟩, ?_⟩ hjam
    rw [left]
    omega

/-- How much an outlet still has to do. -/
def load (o : Outlet) : Nat :=
  2 * o.rest.flatten.length + o.pipe.bytes.length + o.copy.isNone.toNat

theorem load_carry {r : Pipe × Sink × Option CopyEnd} (hgoing : o.copy = none)
    (hcarry : Exchange.carry o.pipe o.sink = some r) :
    (Outlet.mk r.1 r.2.1 r.2.2 o.rest).load < o.load := by
  rw [Exchange.carry_eq] at hcarry
  split at hcarry
  · split at hcarry <;> cases hcarry
    rw [load, load, hgoing]
    exact Nat.lt_succ_self _
  · next hfilled =>
    cases hcarry
    have hpos := List.length_pos_iff.2 hfilled
    have hchunk : 0 < Exchange.chunk := by decide
    have hcopy : o.copy.isNone.toNat = 1 := by
      rw [hgoing]
      rfl
    refine Nat.add_lt_add_of_lt_of_le ?_ (by rw [hcopy]; exact Bool.toNat_le _)
    rw [List.length_drop]
    dsimp only
    omega

theorem load_write {data : List UInt8} {more rest : List (List UInt8)} {n : Nat} {pipe : Pipe}
    (hdata : data ≠ []) (hrest : o.rest = data :: more)
    (hwrite : o.pipe.write data = (.ready (.ok n), pipe))
    (hleft : rest.flatten = data.drop n ++ more.flatten) :
    ({ o with pipe, rest } : Outlet).load < o.load := by
  obtain ⟨hpos, hle⟩ := Pipe.write_pos hwrite hdata
  obtain ⟨-, rfl⟩ := Pipe.write_ok hwrite
  simp only [load, hrest, hleft, List.flatten_cons, List.length_append, List.length_take,
    List.length_drop]
  omega

/-- An outlet of which `total` was left when it was untouched, and into whose pipe the program then
put a first piece of `first` bytes.  Behind the first read, what that took is not left any more. -/
inductive Drawn (capacity first total : Nat) (o : Outlet) : Prop where
  | untouched (hcapacity : o.pipe.capacity = capacity) (hcopy : ∀ e, o.copy ≠ some (.failed e))
      (hleft : o.left = total) (hpipe : o.pipe.bytes = [] ∧ (o.rest.headD []).length = first ∨
        min capacity first ≤ o.pipe.bytes.length)
  | drawn (hcapacity : o.pipe.capacity = capacity)
      (hleft : o.left + min Exchange.chunk (min capacity first) ≤ total)

variable {capacity first total limit : Nat}

theorem Drawn.step (hdrawn : o.Drawn capacity first total) (h : Step o o') :
    o'.Drawn capacity first total := by
  cases h with
  | stay => exact hdrawn
  | lose | close =>
    cases hdrawn with
    | untouched hcapacity hcopy hleft hpipe => exact .untouched hcapacity hcopy hleft hpipe
    | drawn hcapacity hleft => exact .drawn hcapacity hleft
  | write hrest hwrite hmore =>
    have hsame := left_write hrest hwrite hmore
    have hn := Pipe.write_length hwrite
    obtain ⟨-, rfl⟩ := Pipe.write_ok hwrite
    cases hdrawn with
    | untouched hcapacity hcopy hleft hpipe =>
      refine .untouched hcapacity hcopy (hsame.trans hleft) (.inr ?_)
      rw [List.length_append, List.length_take]
      rcases hpipe with ⟨hempty, hfirst⟩ | hfilled
      · rw [hrest, List.headD_cons] at hfirst
        rw [Pipe.room, hempty, List.length_nil, hcapacity] at hn
        omega
      · omega
    | drawn hcapacity hleft => exact .drawn hcapacity (by rwa [hsame])
  | carry hgoing hcarry =>
    rw [Exchange.carry_eq] at hcarry
    split at hcarry
    · split at hcarry <;> cases hcarry
      cases hdrawn with
      | untouched hcapacity hcopy hleft hpipe =>
        exact .untouched hcapacity (fun e he ↦ by cases he) hleft hpipe
      | drawn hcapacity hleft => exact .drawn hcapacity hleft
    · next hfilled =>
      cases hcarry
      have hpos := List.length_pos_iff.2 hfilled
      cases hdrawn with
      | untouched hcapacity hcopy hleft hpipe =>
        refine .drawn hcapacity ?_
        have hmin : min capacity first ≤ o.pipe.bytes.length :=
          hpipe.resolve_left fun hempty ↦ hfilled hempty.1
        rw [left] at hleft ⊢
        rw [List.length_drop]
        dsimp only
        omega
      | drawn hcapacity hleft =>
        refine .drawn hcapacity ?_
        rw [left] at hleft ⊢
        rw [List.length_drop]
        dsimp only
        omega

theorem Drawn.steps (hdrawn : o.Drawn capacity first total)
    (h : Relation.ReflTransGen Step o o') : o'.Drawn capacity first total := by
  induction h with
  | refl => exact hdrawn
  | tail _ hstep ih => exact ih.step hstep

/-- An outlet whose pipe holds all that the first read does not take never jams. -/
theorem Drawn.not_isJammed (hdrawn : o.Drawn capacity first total)
    (htotal : total ≤ capacity + min Exchange.chunk (min capacity first)) : ¬ o.IsJammed := by
  rintro ⟨⟨e, hfailed⟩, hlong⟩
  cases hdrawn with
  | untouched hcapacity hcopy => exact hcopy e hfailed
  | drawn hcapacity hleft => omega

/-- An outlet whose client takes at most `limit` bytes, while more is left than these, the pipe and
what a copy carries at once. -/
inductive Doomed (limit : Nat) (o : Outlet) : Prop where
  | going (hgoing : o.copy = none) (l : Nat) (hl : l ≤ limit) (hlimit : o.sink.limit = some l)
      (hwritten : o.sink.written.length ≤ limit)
      (hlong : o.pipe.capacity + Exchange.chunk + limit < o.sink.written.length + o.left)
  | jammed (hjam : o.IsJammed)

theorem Doomed.step (hdoomed : o.Doomed limit) (hsound : o.IsSound) (h : Step o o') :
    o'.Doomed limit := by
  cases hdoomed with
  | jammed hjam => exact .jammed (hjam.step h)
  | going hgoing l hl hlimit hwritten hlong =>
    cases h with
    | stay | close => exact .going hgoing l hl hlimit hwritten hlong
    | lose => exact .going hgoing _ hwritten rfl hwritten hlong
    | write hrest hwrite hmore =>
      have hsame := left_write hrest hwrite hmore
      obtain ⟨-, rfl⟩ := Pipe.write_ok hwrite
      exact .going hgoing l hl hlimit hwritten (by rwa [hsame])
    | carry _ hcarry =>
      rw [Exchange.carry_eq] at hcarry
      split at hcarry
      · next hempty =>
        split at hcarry
        · next hclosed =>
          rw [left, hempty, hsound.done hclosed, List.length_nil, List.flatten_nil,
            List.length_nil] at hlong
          omega
        · cases hcarry
      · cases hcarry
        rw [left] at hlong
        by_cases hfits : o.sink.Fits (o.pipe.bytes.take Exchange.chunk)
        · obtain ⟨hlength, hroom⟩ := Sink.length_written_of_fits hlimit hfits
          rw [List.length_take] at hlength hroom
          refine .going (if_pos hfits) l hl hlimit ?_ ?_
          · dsimp only
            omega
          · rw [left, hlength, List.length_drop]
            dsimp only
            omega
        · refine .jammed ⟨⟨_, if_neg hfits⟩, ?_⟩
          rw [left, List.length_drop]
          dsimp only
          omega

/-- An empty outlet into which the program has put its first piece, or what fits of it. -/
structure Filled (o o' : Outlet) : Prop where
  copy : o'.copy = o.copy
  sink : o'.sink = o.sink
  capacity : o'.pipe.capacity = o.pipe.capacity
  left : o'.left = o.left
  bytes : o'.pipe.bytes.length = min o.pipe.capacity (o.rest.headD []).length

theorem filled_of_write {data : List UInt8} {more rest : List (List UInt8)} {n : Nat} {pipe : Pipe}
    (hempty : o.pipe.bytes = []) (hrest : o.rest = data :: more)
    (hwrite : o.pipe.write data = (.ready (.ok n), pipe))
    (hleft : rest.flatten = data.drop n ++ more.flatten) : o.Filled { o with pipe, rest } := by
  have hsame := left_write hrest hwrite hleft
  have hn := Pipe.write_length hwrite
  obtain ⟨-, rfl⟩ := Pipe.write_ok hwrite
  refine ⟨rfl, rfl, rfl, hsame, ?_⟩
  rw [Pipe.room, hempty] at hn
  rw [hempty, hrest, List.nil_append, List.length_take, List.headD_cons, hn, List.length_nil]
  omega

end Outlet

end Git

end GitGateway
