import GitGateway.Bytes.Base64
import Mathlib.Algebra.GroupWithZero.Nat
import Mathlib.Data.List.Basic

/-!
# Canonical Base64

The bytes of a text are known from its symbols: the **sextets** of a byte sequence are the values of
the symbols that it is written with, and behind them stands its **filling** (`encode_eq`).  A text
is read exactly if it is what its bytes are written as (`decode_eq_ok_iff`), so no byte sequence has
two texts that are read.  Which texts these are is also said without a writer (`IsCanonical`): whole
groups of symbols, filled up, in which no bit is left that stands for nothing.

The reader splits the last group into symbols and filling, and both ways of the equivalence follow
from what one group stands for: three, two or one byte, as there are four, three or two symbols.
-/

namespace GitGateway.Bytes.Base64

variable {b : UInt8} {v w x y offset : Nat} {t bs : List UInt8} {vs : List Nat}

/-! ## Symbols and their values -/

theorem value?_symbol (h : v < 64) : value? (symbol v) = some v := by
  have hall : ∀ v : Fin 64, value? (symbol v) = some v.1 := by decide
  exact hall ⟨v, h⟩

theorem symbol_of_value? (h : value? b = some v) : v < 64 ∧ symbol v = b := by
  have hall : ∀ n : Fin 256, ∀ v, value? (UInt8.ofNat n) = some v →
      v < 64 ∧ symbol v = UInt8.ofNat n := by decide +kernel
  have hb := hall ⟨b.toNat, b.toNat_lt⟩ v
  rw [UInt8.ofNat_toNat] at hb
  exact hb h

theorem symbol_ne_pad (h : v < 64) : symbol v ≠ pad := by
  intro heq
  have hvalue := value?_symbol h
  rw [heq] at hvalue
  cases hvalue

theorem values_cons_eq_ok_iff : values offset (b :: bs) = .ok vs ↔
    ∃ v rest, vs = v :: rest ∧ value? b = some v ∧ values (offset + 1) bs = .ok rest := by
  rw [values]
  cases hb : value? b with
  | none => simp
  | some v =>
    cases hbs : values (offset + 1) bs with
    | error e => simp [Except.map]
    | ok rest => simp [Except.map, eq_comm]

/-- What is read as values is written with their symbols. -/
theorem values_eq_ok_iff : values offset t = .ok vs ↔ (∀ v ∈ vs, v < 64) ∧ t = vs.map symbol := by
  induction t generalizing offset vs with
  | nil =>
    rw [values, Except.ok.injEq]
    constructor
    · rintro rfl
      exact ⟨List.forall_mem_nil _, rfl⟩
    · rintro ⟨-, ht⟩
      exact (List.map_eq_nil_iff.1 ht.symm).symm
  | cons b t ih =>
    rw [values_cons_eq_ok_iff]
    simp only [ih]
    constructor
    · rintro ⟨v, rest, rfl, hb, hrest, rfl⟩
      obtain ⟨hv, rfl⟩ := symbol_of_value? hb
      exact ⟨List.forall_mem_cons.2 ⟨hv, hrest⟩, rfl⟩
    · rintro ⟨hvs, ht⟩
      obtain ⟨v, rest, rfl, rfl, rfl⟩ := List.map_eq_cons_iff.1 ht.symm
      obtain ⟨hv, hrest⟩ := List.forall_mem_cons.1 hvs
      exact ⟨v, rest, rfl, value?_symbol hv, hrest, rfl⟩

/-! ## Groups -/

/-- The values of the symbols of a byte sequence. -/
def sextets : List UInt8 → List Nat
  | a :: b :: c :: rest =>
    let n := (a.toNat * 256 + b.toNat) * 256 + c.toNat
    n / 262144 :: n / 4096 % 64 :: n / 64 % 64 :: n % 64 :: sextets rest
  | [a, b] =>
    let n := (a.toNat * 256 + b.toNat) * 4
    [n / 4096, n / 64 % 64, n % 64]
  | [a] =>
    let n := a.toNat * 16
    [n / 64, n % 64]
  | [] => []

/-- How much filling stands behind so many bytes. -/
def filling : List UInt8 → Nat
  | _ :: _ :: _ :: rest => filling rest
  | [_, _] => 1
  | [_] => 2
  | [] => 0

theorem encode_eq (bs : List UInt8) :
    encode bs = (sextets bs).map symbol ++ List.replicate (filling bs) pad := by
  rw [encode]
  fun_induction sextets bs with
  | case1 a b c rest n ih =>
    rw [encodeWith, ih]
    rfl
  | case2 | case3 | case4 => rfl

theorem sextets_lt (bs : List UInt8) : ∀ v ∈ sextets bs, v < 64 := by
  fun_induction sextets bs with
  | case1 a b c rest n ih =>
    have ha := a.toNat_lt
    have hb := b.toNat_lt
    have hc := c.toNat_lt
    simp only [List.forall_mem_cons]
    exact ⟨by omega, by omega, by omega, by omega, ih⟩
  | case2 a b n =>
    have ha := a.toNat_lt
    have hb := b.toNat_lt
    simp only [List.forall_mem_cons]
    exact ⟨by omega, by omega, by omega, List.forall_mem_nil _⟩
  | case3 a n =>
    have ha := a.toNat_lt
    simp only [List.forall_mem_cons]
    exact ⟨by omega, by omega, List.forall_mem_nil _⟩
  | case4 => exact List.forall_mem_nil _

section Group

variable {a b c : UInt8} (hv : v < 64) (hw : w < 64)

include hv hw

/-- Four symbols stand for three bytes, -/
theorem joinGroup_eq_iff (hx : x < 64) (hy : y < 64) :
    joinGroup v w x y = [a, b, c] ↔ sextets [a, b, c] = [v, w, x, y] := by
  have ha := a.toNat_lt
  have hb := b.toNat_lt
  have hc := c.toNat_lt
  simp only [joinGroup, sextets, List.cons.injEq, and_true, ← UInt8.toNat_inj, UInt8.toNat_ofNat']
  omega

/-- three symbols for two, if two bits of the last one are zero, -/
theorem take_joinGroup_eq_pair_iff (hx : x < 64) : x % 4 = 0 ∧ (joinGroup v w x 0).take 2 = [a, b] ↔
    sextets [a, b] = [v, w, x] := by
  have ha := a.toNat_lt
  have hb := b.toNat_lt
  simp only [joinGroup, sextets, List.take_succ_cons, List.take_zero, List.cons.injEq, and_true,
    ← UInt8.toNat_inj, UInt8.toNat_ofNat']
  omega

/-- and two symbols for one, if four bits of the last one are zero. -/
theorem take_joinGroup_eq_single_iff : w % 16 = 0 ∧ (joinGroup v w 0 0).take 1 = [a] ↔
    sextets [a] = [v, w] := by
  have ha := a.toNat_lt
  simp only [joinGroup, sextets, List.take_succ_cons, List.take_zero, List.cons.injEq, and_true,
    ← UInt8.toNat_inj, UInt8.toNat_ofNat']
  omega

end Group

/-! ## Reading -/

theorem splitLast_eq_ok_iff {symbols : List UInt8} {fill : Nat} :
    splitLast offset t = .ok (symbols, fill) ↔
      (∃ vs, values offset symbols = .ok vs) ∧ t = symbols ++ List.replicate fill pad ∧
        (fill = 0 ∨ 2 ≤ symbols.length) := by
  constructor
  · intro h
    rw [splitLast] at h
    have hall : ∀ l : List UInt8, l.any (· != pad) = false → l = List.replicate l.length pad := by
      intro l hl
      refine List.eq_replicate_iff.2 ⟨rfl, fun b hb ↦ ?_⟩
      simpa using List.any_eq_false.1 hl b hb
    have hsplit := List.takeWhile_append_dropWhile (p := (· != pad)) (l := t)
    split at h
    · cases h
    · next vs hvs =>
      split at h
      · next hnil =>
        cases h
        rw [List.isEmpty_iff.1 hnil, List.append_nil] at hsplit
        exact ⟨⟨vs, hvs⟩, by rw [List.replicate_zero, List.append_nil, hsplit], .inl rfl⟩
      · split at h
        · cases h
        · next hpad =>
          cases h
          simp only [Bool.or_eq_true, decide_eq_true_eq, not_or, Bool.not_eq_true] at hpad
          exact ⟨⟨vs, hvs⟩, by rw [← hall _ hpad.2, hsplit], .inr (Nat.not_lt.1 hpad.1)⟩
  · rintro ⟨⟨vs, hvs⟩, rfl, hfill⟩
    obtain ⟨hlt, rfl⟩ := values_eq_ok_iff.1 hvs
    have hsymbols : ∀ b ∈ vs.map symbol, (b != pad) = true := by
      intro b hb
      obtain ⟨v, hv, rfl⟩ := List.mem_map.1 hb
      simpa using symbol_ne_pad (hlt v hv)
    have htake : (vs.map symbol ++ List.replicate fill pad).takeWhile (· != pad) =
        vs.map symbol := by
      rw [List.takeWhile_append_of_pos hsymbols, List.takeWhile_replicate]
      simp
    have hdrop : (vs.map symbol ++ List.replicate fill pad).dropWhile (· != pad) =
        List.replicate fill pad := by
      rw [List.dropWhile_append_of_pos hsymbols, List.dropWhile_replicate]
      simp
    rw [splitLast, htake, hdrop, hvs]
    cases fill with
    | zero => rfl
    | succ n =>
      have hlength : 2 ≤ (vs.map symbol).length := hfill.resolve_left n.succ_ne_zero
      rw [List.length_map] at hlength
      simp
      omega

/-! ### The last group -/

/-- Four symbols are read as three bytes, -/
theorem decodeLast_four_eq_ok_iff (hv : v < 64) (hw : w < 64) (hx : x < 64) (hy : y < 64) :
    decodeLast offset ([v, w, x, y].map symbol) = .ok bs ↔
      ∃ a b c, bs = [a, b, c] ∧ sextets [a, b, c] = [v, w, x, y] := by
  have hvalues : values offset ([v, w, x, y].map symbol) = .ok [v, w, x, y] :=
    values_eq_ok_iff.2 ⟨by simp [hv, hw, hx, hy], rfl⟩
  have hsplit : splitLast offset ([v, w, x, y].map symbol) = .ok ([v, w, x, y].map symbol, 0) :=
    splitLast_eq_ok_iff.2 ⟨⟨_, hvalues⟩, rfl, .inl rfl⟩
  have hdecode : decodeLast offset ([v, w, x, y].map symbol) = .ok (joinGroup v w x y) := by
    rw [decodeLast, hsplit]
    simp only [hvalues]
    rfl
  simp only [hdecode, Except.ok.injEq, ← joinGroup_eq_iff hv hw hx hy]
  constructor
  · rintro rfl
    exact ⟨_, _, _, rfl, rfl⟩
  · rintro ⟨a, b, c, rfl, h⟩
    exact h

/-- three as two, -/
theorem decodeLast_three_eq_ok_iff (hv : v < 64) (hw : w < 64) (hx : x < 64) :
    decodeLast offset ([v, w, x].map symbol ++ [pad]) = .ok bs ↔
      ∃ a b, bs = [a, b] ∧ sextets [a, b] = [v, w, x] := by
  have hvalues : values offset ([v, w, x].map symbol) = .ok [v, w, x] :=
    values_eq_ok_iff.2 ⟨by simp [hv, hw, hx], rfl⟩
  have hsplit : splitLast offset ([v, w, x].map symbol ++ [pad]) =
      .ok ([v, w, x].map symbol, 1) :=
    splitLast_eq_ok_iff.2 ⟨⟨_, hvalues⟩, rfl, .inr (Nat.le_succ 2)⟩
  have hdecode : decodeLast offset ([v, w, x].map symbol ++ [pad]) =
      if x % 4 = 0 then .ok ((joinGroup v w x 0).take 2)
      else .error (.lastSymbol (symbol x) (offset + 2)) := by
    rw [decodeLast, hsplit]
    simp only [hvalues, bne_iff_ne, ne_eq, ite_not]
    rfl
  simp only [hdecode, ← take_joinGroup_eq_pair_iff hv hw hx]
  constructor
  · intro h
    split at h
    · next hbits =>
      cases h
      exact ⟨_, _, rfl, hbits, rfl⟩
    · cases h
  · rintro ⟨a, b, rfl, hbits, h⟩
    rw [if_pos hbits, h]

/-- two as one. -/
theorem decodeLast_two_eq_ok_iff (hv : v < 64) (hw : w < 64) :
    decodeLast offset ([v, w].map symbol ++ [pad, pad]) = .ok bs ↔
      ∃ a, bs = [a] ∧ sextets [a] = [v, w] := by
  have hvalues : values offset ([v, w].map symbol) = .ok [v, w] :=
    values_eq_ok_iff.2 ⟨by simp [hv, hw], rfl⟩
  have hsplit : splitLast offset ([v, w].map symbol ++ [pad, pad]) =
      .ok ([v, w].map symbol, 2) :=
    splitLast_eq_ok_iff.2 ⟨⟨_, hvalues⟩, rfl, .inr (Nat.le_refl 2)⟩
  have hdecode : decodeLast offset ([v, w].map symbol ++ [pad, pad]) =
      if w % 16 = 0 then .ok ((joinGroup v w 0 0).take 1)
      else .error (.lastSymbol (symbol w) (offset + 1)) := by
    rw [decodeLast, hsplit]
    simp only [hvalues, bne_iff_ne, ne_eq, ite_not]
    rfl
  simp only [hdecode, ← take_joinGroup_eq_single_iff hv hw]
  constructor
  · intro h
    split at h
    · next hbits =>
      cases h
      exact ⟨_, rfl, hbits, rfl⟩
    · cases h
  · rintro ⟨a, rfl, hbits, h⟩
    rw [if_pos hbits, h]

/-- A last group that is read has two to four symbols and is filled up. -/
theorem exists_of_decodeLast (h : decodeLast offset t = .ok bs) :
    ∃ (vs : List Nat) (fill : Nat), (∀ v ∈ vs, v < 64) ∧ 2 ≤ vs.length ∧ vs.length + fill = 4 ∧
      t = vs.map symbol ++ List.replicate fill pad := by
  rw [decodeLast] at h
  split at h
  · cases h
  next symbols fill hsplit =>
  obtain ⟨⟨vs, hvs⟩, rfl, -⟩ := splitLast_eq_ok_iff.1 hsplit
  obtain ⟨hlt, rfl⟩ := values_eq_ok_iff.1 hvs
  clear hsplit hvs
  split at h
  · cases h
  split at h
  · cases h
  next hlong hfill =>
  simp only [List.length_map, bne_iff_ne, ne_eq, not_not] at hlong hfill
  exact ⟨vs, fill, hlt, Nat.not_lt.1 hlong, hfill, rfl⟩

/-- The last group stands for one to three bytes, of which it is the canonical text. -/
theorem decodeLast_eq_ok_iff : decodeLast offset t = .ok bs ↔
    bs ≠ [] ∧ bs.length ≤ 3 ∧ t = encode bs := by
  constructor
  · intro h
    obtain ⟨vs, fill, hlt, hlong, hfill, rfl⟩ := exists_of_decodeLast h
    obtain _ | ⟨v, _ | ⟨w, _ | ⟨x, _ | ⟨y, _ | ⟨z, rest⟩⟩⟩⟩⟩ := vs
    · exact absurd hlong (by decide)
    · exact absurd hlong (Nat.not_succ_le_self 1)
    · simp only [List.forall_mem_cons] at hlt
      obtain rfl : fill = 2 := Nat.add_left_cancel hfill
      obtain ⟨a, rfl, hgroup⟩ := (decodeLast_two_eq_ok_iff hlt.1 hlt.2.1).1 h
      exact ⟨List.cons_ne_nil _ _, Nat.le_add_left 1 2, by rw [encode_eq, hgroup]; rfl⟩
    · simp only [List.forall_mem_cons] at hlt
      obtain rfl : fill = 1 := Nat.add_left_cancel hfill
      obtain ⟨a, b, rfl, hgroup⟩ := (decodeLast_three_eq_ok_iff hlt.1 hlt.2.1 hlt.2.2.1).1 h
      exact ⟨List.cons_ne_nil _ _, Nat.le_succ 2, by rw [encode_eq, hgroup]; rfl⟩
    · simp only [List.forall_mem_cons] at hlt
      obtain rfl : fill = 0 := Nat.add_left_cancel hfill
      rw [List.replicate_zero, List.append_nil] at h
      obtain ⟨a, b, c, rfl, hgroup⟩ :=
        (decodeLast_four_eq_ok_iff hlt.1 hlt.2.1 hlt.2.2.1 hlt.2.2.2.1).1 h
      exact ⟨List.cons_ne_nil _ _, Nat.le_refl 3, by rw [encode_eq, hgroup]; rfl⟩
    · simp only [List.length_cons] at hfill
      omega
  · rintro ⟨hne, hle, rfl⟩
    have hlt := sextets_lt bs
    rw [encode_eq]
    obtain _ | ⟨a, _ | ⟨b, _ | ⟨c, _ | ⟨d, rest⟩⟩⟩⟩ := bs
    · exact absurd rfl hne
    · simp only [sextets, List.forall_mem_cons] at hlt
      exact (decodeLast_two_eq_ok_iff hlt.1 hlt.2.1).2 ⟨a, rfl, rfl⟩
    · simp only [sextets, List.forall_mem_cons] at hlt
      exact (decodeLast_three_eq_ok_iff hlt.1 hlt.2.1 hlt.2.2.1).2 ⟨a, b, rfl, rfl⟩
    · simp only [sextets, List.forall_mem_cons] at hlt
      exact (decodeLast_four_eq_ok_iff hlt.1 hlt.2.1 hlt.2.2.1 hlt.2.2.2.1).2 ⟨a, b, c, rfl, rfl⟩
    · simp only [List.length_cons] at hle
      omega

/-! ### Group after group -/

theorem map_symbol_sextets_group (a b c : UInt8) :
    (sextets [a, b, c]).map symbol = encodeGroup a b c := rfl

theorem decodeGroup_eq_ok_iff {s₀ s₁ s₂ s₃ : UInt8} : decodeGroup offset s₀ s₁ s₂ s₃ = .ok bs ↔
    ∃ a b c, bs = [a, b, c] ∧ [s₀, s₁, s₂, s₃] = encodeGroup a b c := by
  rw [decodeGroup]
  constructor
  · intro h
    split at h
    · next v w x y hvalues =>
      obtain ⟨hlt, hsymbols⟩ := values_eq_ok_iff.1 hvalues
      simp only [List.forall_mem_cons] at hlt
      cases h
      refine ⟨_, _, _, rfl, ?_⟩
      rw [hsymbols, ← map_symbol_sextets_group,
        (joinGroup_eq_iff hlt.1 hlt.2.1 hlt.2.2.1 hlt.2.2.2.1).1 rfl]
    · next vs hfour hvalues =>
      obtain ⟨-, hsymbols⟩ := values_eq_ok_iff.1 hvalues
      obtain ⟨v, w, x, y, rfl, -⟩ : ∃ v w x y, vs = [v, w, x, y] ∧ s₀ = symbol v ∧
          s₁ = symbol w ∧ s₂ = symbol x ∧ s₃ = symbol y := by
        simpa [List.map_eq_cons_iff, eq_comm] using hsymbols.symm
      exact (hfour v w x y rfl).elim
    · cases h
  · rintro ⟨a, b, c, rfl, hsymbols⟩
    have hvalues : values offset [s₀, s₁, s₂, s₃] = .ok (sextets [a, b, c]) :=
      values_eq_ok_iff.2 ⟨sextets_lt _, hsymbols⟩
    have hlt := sextets_lt [a, b, c]
    simp only [sextets, List.forall_mem_cons] at hlt
    rw [hvalues]
    exact congrArg _ ((joinGroup_eq_iff hlt.1 hlt.2.1 hlt.2.2.1 hlt.2.2.2.1).2 rfl)

theorem encode_append_group (a b c : UInt8) (bs : List UInt8) :
    encode (a :: b :: c :: bs) = encodeGroup a b c ++ encode bs := rfl

theorem exists_of_mem_encode (h : b ∈ encode bs) : b = pad ∨ ∃ v < 64, b = symbol v := by
  rw [encode_eq, List.mem_append] at h
  obtain h | h := h
  · obtain ⟨v, hv, rfl⟩ := List.mem_map.1 h
    exact .inr ⟨v, sextets_lt bs v hv, rfl⟩
  · exact .inl (List.eq_of_mem_replicate h)

theorem length_encode (bs : List UInt8) : (encode bs).length = (bs.length + 2) / 3 * 4 := by
  rw [encode]
  fun_induction encodeWith true bs with
  | case1 a b c rest ih =>
    rw [List.length_append, ih]
    simp only [encodeGroup, List.length_cons, List.length_nil]
    omega
  | case2 => simp [encodePair]
  | case3 => simp [encodeSingle]
  | case4 => rfl

/-- A text of more than one group starts with the group of the first three bytes. -/
theorem exists_group_of_encode {s₀ s₁ s₂ s₃ s₄ : UInt8} {rest : List UInt8}
    (h : s₀ :: s₁ :: s₂ :: s₃ :: s₄ :: rest = encode bs) :
    ∃ a b c bs', bs' ≠ [] ∧ bs = a :: b :: c :: bs' ∧ [s₀, s₁, s₂, s₃] = encodeGroup a b c ∧
      s₄ :: rest = encode bs' := by
  have hlength := congrArg List.length h
  rw [length_encode] at hlength
  simp only [List.length_cons] at hlength
  obtain _ | ⟨a, _ | ⟨b, _ | ⟨c, _ | ⟨d, bs⟩⟩⟩⟩ := bs
  · simp at hlength
  · simp at hlength
  · simp at hlength
  · simp at hlength
  · rw [encode_append_group, encodeGroup] at h
    simp only [List.cons_append, List.nil_append, List.cons.injEq] at h
    obtain ⟨rfl, rfl, rfl, rfl, h⟩ := h
    exact ⟨a, b, c, d :: bs, List.cons_ne_nil _ _, rfl, rfl, h⟩

/-- A text of at most one group is the text of at most three bytes. -/
theorem length_le_of_encode (ht : t = encode bs)
    (h : ∀ a b c d e rest, t = a :: b :: c :: d :: e :: rest → False) : bs.length ≤ 3 := by
  have hlength : t.length ≤ 4 := by
    obtain _ | ⟨a, _ | ⟨b, _ | ⟨c, _ | ⟨d, _ | ⟨e, rest⟩⟩⟩⟩⟩ := t
    case cons.cons.cons.cons.cons => exact (h _ _ _ _ _ _ rfl).elim
    all_goals simp
  rw [ht, length_encode] at hlength
  omega

theorem decodeFrom_eq_ok_iff {done out : List UInt8} : decodeFrom offset done t = .ok out ↔
    ∃ bs, bs ≠ [] ∧ t = encode bs ∧ out = done.reverse ++ bs := by
  fun_induction decodeFrom offset done t generalizing out with
  | case1 offset done s₀ s₁ s₂ s₃ e rest err herr =>
    refine iff_of_false (by rintro ⟨⟩) ?_
    rintro ⟨bs, -, ht, -⟩
    obtain ⟨a, b, c, bs, -, -, hgroup, -⟩ := exists_group_of_encode ht
    rw [decodeGroup_eq_ok_iff.2 ⟨a, b, c, rfl, hgroup⟩] at herr
    cases herr
  | case2 offset done s₀ s₁ s₂ s₃ e rest bytes hbytes ih =>
    rw [ih]
    constructor
    · rintro ⟨bs, -, hrest, rfl⟩
      obtain ⟨a, b, c, rfl, hgroup⟩ := decodeGroup_eq_ok_iff.1 hbytes
      refine ⟨a :: b :: c :: bs, List.cons_ne_nil _ _, ?_, by simp⟩
      rw [encode_append_group, ← hgroup, ← hrest]
      rfl
    · rintro ⟨bs, -, ht, rfl⟩
      obtain ⟨a, b, c, bs, hne, rfl, hgroup, hrest⟩ := exists_group_of_encode ht
      rw [decodeGroup_eq_ok_iff.2 ⟨a, b, c, rfl, hgroup⟩] at hbytes
      cases hbytes
      exact ⟨bs, hne, hrest, by simp⟩
  | case3 offset done t hgroups err herr =>
    refine iff_of_false (by rintro ⟨⟩) ?_
    rintro ⟨bs, hne, rfl, -⟩
    have hle := length_le_of_encode rfl hgroups
    rw [decodeLast_eq_ok_iff.2 ⟨hne, hle, rfl⟩] at herr
    cases herr
  | case4 offset done t hgroups bytes hbytes =>
    obtain ⟨hne, hle, rfl⟩ := decodeLast_eq_ok_iff.1 hbytes
    constructor
    · intro h
      cases h
      exact ⟨bytes, hne, rfl, rfl⟩
    · rintro ⟨bs, hne', ht, rfl⟩
      have hle' := length_le_of_encode ht hgroups
      rw [decodeLast_eq_ok_iff.2 ⟨hne', hle', ht⟩] at hbytes
      cases hbytes
      rfl

/-! ### The whole text -/

theorem straySymbol?_encode (bs : List UInt8) : straySymbol? (encode bs) = none := by
  have hlength : (encode bs).length % 4 = 0 := by
    rw [length_encode, Nat.mul_mod_left]
  rw [straySymbol?]
  split
  · simp [hlength]
  · rfl

theorem encode_eq_nil_iff : encode bs = [] ↔ bs = [] := by
  rw [← List.length_eq_zero_iff, length_encode, ← List.length_eq_zero_iff]
  omega

/-- Reading and writing are inverse to each other: a text that is read is the canonical text of
what is read, and every canonical text is read. -/
theorem decode_eq_ok_iff : decode t = .ok bs ↔ t = encode bs := by
  rw [decode]
  constructor
  · intro h
    split at h
    · cases h
    split at h
    · next hempty =>
      cases h
      exact List.isEmpty_iff.1 hempty
    · obtain ⟨bs, -, rfl, rfl⟩ := decodeFrom_eq_ok_iff.1 h
      rfl
  · rintro rfl
    rw [straySymbol?_encode]
    by_cases hbs : bs = []
    · subst hbs
      rfl
    · have hne : (encode bs).isEmpty = false := by
        rwa [← Bool.not_eq_true, List.isEmpty_iff, encode_eq_nil_iff]
      simp only [hne, Bool.false_eq_true, if_false]
      exact decodeFrom_eq_ok_iff.2 ⟨bs, hbs, rfl, rfl⟩

/-- Different byte sequences have different texts. -/
theorem encode_injective : Function.Injective encode := by
  intro bs bs' h
  have hread := decode_eq_ok_iff.2 h
  rw [decode_eq_ok_iff.2 rfl] at hread
  cases hread
  rfl

/-! ## Canonical texts -/

/-- The text of the values `vs`, filled up to whole groups of four, where the last symbol has a zero
for each of the two bits that one filling takes from it. -/
def IsCanonical (t : List UInt8) : Prop :=
  ∃ (vs : List Nat) (fill : Nat), (∀ v ∈ vs, v < 64) ∧ fill ≤ 2 ∧ (vs.length + fill) % 4 = 0 ∧
    (∀ v ∈ vs.getLast?, v % 4 ^ fill = 0) ∧ t = vs.map symbol ++ List.replicate fill pad

theorem filling_le (bs : List UInt8) : filling bs ≤ 2 := by
  fun_induction filling bs with
  | case1 a b c rest ih => exact ih
  | case2 | case3 | case4 => decide

theorem sextets_eq_nil_iff : sextets bs = [] ↔ bs = [] := by
  fun_cases sextets bs with
  | case1 | case2 | case3 => exact iff_of_false (List.cons_ne_nil _ _) (List.cons_ne_nil _ _)
  | case4 => exact iff_of_true rfl rfl

theorem getLast?_sextets (bs : List UInt8) :
    ∀ v ∈ (sextets bs).getLast?, v % 4 ^ filling bs = 0 := by
  fun_induction sextets bs with
  | case1 a b c rest n ih =>
    intro v hv
    rw [filling]
    by_cases hrest : rest = []
    · subst hrest
      exact Nat.mod_one v
    · obtain ⟨w, ws, hws⟩ := List.exists_cons_of_ne_nil (mt sextets_eq_nil_iff.1 hrest)
      rw [hws] at hv ih
      exact ih v hv
  | case2 a b n =>
    intro v hv
    obtain rfl : n % 64 = v := Option.some.inj hv
    simp only [filling, n]
    omega
  | case3 a n =>
    intro v hv
    obtain rfl : n % 64 = v := Option.some.inj hv
    simp only [filling, n]
    omega
  | case4 => intro v hv; cases hv

/-- The values of a canonical text are those of a byte sequence. -/
theorem exists_sextets_eq (fill : Nat) (hlt : ∀ v ∈ vs, v < 64) (hfill : fill ≤ 2)
    (hlength : (vs.length + fill) % 4 = 0) (hlast : ∀ v ∈ vs.getLast?, v % 4 ^ fill = 0) :
    ∃ bs, sextets bs = vs ∧ filling bs = fill := by
  induction hn : vs.length using Nat.strongRecOn generalizing vs with
  | ind n ih =>
  obtain _ | ⟨v, _ | ⟨w, _ | ⟨x, _ | ⟨y, rest⟩⟩⟩⟩ := vs
  · obtain rfl : fill = 0 := by simp only [List.length_nil] at hlength; omega
    exact ⟨[], rfl, rfl⟩
  · simp only [List.length_cons, List.length_nil] at hlength
    omega
  · obtain rfl : fill = 2 := by simp only [List.length_cons, List.length_nil] at hlength; omega
    simp only [List.forall_mem_cons] at hlt
    exact ⟨_, (take_joinGroup_eq_single_iff hlt.1 hlt.2.1).1 ⟨hlast w rfl, rfl⟩, rfl⟩
  · obtain rfl : fill = 1 := by simp only [List.length_cons, List.length_nil] at hlength; omega
    simp only [List.forall_mem_cons] at hlt
    exact ⟨_, (take_joinGroup_eq_pair_iff hlt.1 hlt.2.1 hlt.2.2.1).1 ⟨hlast x rfl, rfl⟩, rfl⟩
  · simp only [List.forall_mem_cons] at hlt
    obtain ⟨hv, hw, hx, hy, hrest⟩ := hlt
    simp only [List.length_cons] at hlength hn
    have hlast' : ∀ v ∈ rest.getLast?, v % 4 ^ fill = 0 := by
      intro u hu
      refine hlast u ?_
      simp [List.getLast?_cons, Option.mem_def.1 hu]
    obtain ⟨bs, hbs, hfilling⟩ := ih rest.length (by omega) hrest (by omega) hlast' rfl
    obtain ⟨a, b, c, hjoin⟩ : ∃ a b c, joinGroup v w x y = [a, b, c] := ⟨_, _, _, rfl⟩
    have hgroup := (joinGroup_eq_iff hv hw hx hy).1 hjoin
    refine ⟨a :: b :: c :: bs, ?_, hfilling⟩
    rw [sextets, hbs]
    exact congrArg (· ++ rest) hgroup

theorem isCanonical_iff_exists_encode : IsCanonical t ↔ ∃ bs, t = encode bs := by
  constructor
  · rintro ⟨vs, fill, hlt, hfill, hlength, hlast, rfl⟩
    obtain ⟨bs, rfl, rfl⟩ := exists_sextets_eq fill hlt hfill hlength hlast
    exact ⟨bs, (encode_eq bs).symm⟩
  · rintro ⟨bs, rfl⟩
    refine ⟨sextets bs, filling bs, sextets_lt bs, filling_le bs, ?_, getLast?_sextets bs,
      encode_eq bs⟩
    have hlength := length_encode bs
    rw [encode_eq, List.length_append, List.length_map, List.length_replicate] at hlength
    rw [hlength, Nat.mul_mod_left]

end GitGateway.Bytes.Base64
