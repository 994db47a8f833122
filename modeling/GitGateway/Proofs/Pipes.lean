import GitGateway.Stream.Pipe

/-!
# What a pipe does

A write that goes through puts bytes behind what is in the pipe, and a read takes them from the
front.  A read finds nothing only in a pipe that is **dry**: closed, and empty.  A pipe that makes
its writer wait is full, and one that makes its reader wait is empty and open.
-/

namespace GitGateway

namespace Pipe

variable {p p' : Pipe} {data : List UInt8} {n : Nat}

/-- A write that goes through puts what it wrote behind what is in the pipe, which is open. -/
theorem write_ok (h : p.write data = (.ready (.ok n), p')) :
    p.isClosed = false ∧ p' = { p with bytes := p.bytes ++ data.take n } := by
  unfold write at h
  split at h
  · cases h
  · next hclosed =>
    split at h
    · cases h
    · cases h
      refine ⟨Bool.eq_false_iff.2 hclosed, ?_⟩
      rw [← List.take_eq_take_min]

/-- A write that goes through writes something, unless there is nothing to write. -/
theorem write_pos (h : p.write data = (.ready (.ok n), p')) (hdata : data ≠ []) :
    0 < n ∧ n ≤ data.length := by
  unfold write at h
  split at h
  · cases h
  · split at h
    · cases h
    · next hroom =>
      cases h
      have hlength := List.length_pos_iff.2 hdata
      simp only [beq_iff_eq] at hroom
      omega

/-- A write that goes through writes all that there is room for. -/
theorem write_length (h : p.write data = (.ready (.ok n), p')) : n = min p.room data.length := by
  unfold write at h
  split at h
  · cases h
  · split at h <;> cases h
    rfl

/-- Only a closed pipe refuses a write. -/
theorem isClosed_of_write {e : IoError} (h : p.write data = (.ready (.error e), p')) :
    p.isClosed = true := by
  unfold write at h
  split at h
  · assumption
  · split at h <;> cases h

/-- Only a full pipe makes its writer wait. -/
theorem write_pending (h : p.write data = (.pending, p')) :
    p.isClosed = false ∧ p.capacity ≤ p.bytes.length := by
  unfold write at h
  split at h
  · cases h
  · next hclosed =>
    split at h
    · next hroom => exact ⟨Bool.eq_false_iff.2 hclosed, Nat.le_of_sub_eq_zero (eq_of_beq hroom)⟩
    · cases h

/-- Only an open pipe that holds nothing makes its reader wait. -/
theorem read_pending (h : p.read n = (.pending, p')) : p.isClosed = false ∧ p.bytes = [] := by
  unfold read at h
  split at h
  · next hwait =>
    simp only [Bool.and_eq_true, List.isEmpty_iff, Bool.not_eq_true'] at hwait
    exact ⟨hwait.1.2, hwait.1.1⟩
  · cases h

/-- A read takes as many bytes as it asked for, or all there are, and leaves the rest. -/
theorem eq_of_read (h : p.read n = (.ready data, p')) :
    data = p.bytes.take n ∧ p' = { p with bytes := p.bytes.drop n } := by
  unfold read at h
  split at h
  · cases h
  · cases h
    exact ⟨rfl, rfl⟩

/-- A pipe that is closed and holds nothing. -/
structure IsDry (p : Pipe) : Prop where
  isClosed : p.isClosed = true
  bytes : p.bytes = []

/-- A read takes bytes from the front; it finds nothing only in a dry pipe. -/
theorem read_ready (h : p.read n = (.ready data, p')) :
    p.bytes = data ++ p'.bytes ∧ p'.isClosed = p.isClosed ∧ (data = [] → 0 < n → p.IsDry) := by
  unfold read at h
  split at h
  · cases h
  · next hready =>
    cases h
    refine ⟨(List.take_append_drop n p.bytes).symm, rfl, fun hdata hn ↦ ?_⟩
    have hempty : p.bytes = [] := (List.take_eq_nil_iff.1 hdata).resolve_left (Nat.ne_of_gt hn)
    exact ⟨by simpa [hempty, hn] using hready, hempty⟩

/-- A dry pipe gives nothing, and stays dry. -/
theorem IsDry.read (hdry : p.IsDry) (h : p.read n = (.ready data, p')) : data = [] ∧ p'.IsDry := by
  obtain ⟨hbytes, hclosed, -⟩ := read_ready h
  rw [hdry.bytes] at hbytes
  obtain ⟨rfl, hrest⟩ := List.nil_eq_append_iff.1 hbytes
  exact ⟨rfl, hclosed.trans hdry.isClosed, hrest⟩

end Pipe

end GitGateway
