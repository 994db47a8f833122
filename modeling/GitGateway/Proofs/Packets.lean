import GitGateway.Git.PktLine

/-!
# Packet lines read back

A reader of packet lines takes four lowercase hexadecimal digits as a length that counts themselves.
Zero is the packet that ends a message; one to three count less than the digits, and more than 65520
is too much, so these are no lengths.

The reader accepts exactly what is written (`readPacket_eq_some_iff`): four bytes are the digits of
one number at most, and no payload makes them a length that means something else.  So a message ends
where its writer ended it, whatever follows it and whatever the payloads hold, since they are counted
and not searched.  A payload that is too long is read back as it was written, which is cut.
-/

namespace GitGateway.Git.PktLine

/-! ## The reader -/

/-- What stands at the front of a stream of packet lines. -/
inductive Packet where
  | payload (data : List UInt8)
  /-- The packet that ends a message. -/
  | flush
deriving DecidableEq, Repr

namespace Packet

/-- The bytes of a packet. -/
def bytes : Packet → List UInt8
  | .payload data => encode data
  | .flush => PktLine.flush

/-- Whether a packet is written without being cut. -/
def Fits : Packet → Prop
  | .payload data => data.length ≤ maxPayload
  | .flush => True

end Packet

/-- The value of a lowercase hexadecimal digit. -/
def digitValue? (b : UInt8) : Option Nat :=
  if 48 ≤ b ∧ b ≤ 57 then some (b.toNat - 48)
  else if 97 ≤ b ∧ b ≤ 102 then some (b.toNat - 87)
  else none

/-- The number that the first four bytes are the digits of, and the bytes behind them. -/
def readLength : List UInt8 → Option (Nat × List UInt8)
  | a :: b :: c :: d :: rest => do
    let high := (← digitValue? a) * 16 + (← digitValue? b)
    let low := (← digitValue? c) * 16 + (← digitValue? d)
    return (high * 256 + low, rest)
  | _ => none

/-- The longest packet line. -/
def maxLength : Nat := 65520

/-- Reads one packet; gives the bytes behind it as well. -/
def readPacket (bytes : List UInt8) : Option (Packet × List UInt8) :=
  match readLength bytes with
  | none => none
  | some (n, rest) =>
    if n = 0 then some (.flush, rest)
    else if n < 4 ∨ maxLength < n ∨ rest.length < n - 4 then none
    else some (.payload (rest.take (n - 4)), rest.drop (n - 4))

/-! ## Digits -/

theorem digitValue?_hexDigit {v : Nat} (hv : v < 16) : digitValue? (hexDigit v) = some v := by
  have hall : ∀ v : Fin 16, digitValue? (hexDigit v) = some v.val := by decide
  exact hall ⟨v, hv⟩

/-- A byte is the digit of one value at most. -/
theorem digitValue?_eq_some_iff {b : UInt8} {v : Nat} :
    digitValue? b = some v ↔ v < 16 ∧ b = hexDigit v := by
  constructor
  · intro h
    unfold digitValue? at h
    split at h
    · next hb =>
      have hlow : 48 ≤ b.toNat ∧ b.toNat ≤ 57 := hb
      cases h
      refine ⟨by omega, ?_⟩
      rw [hexDigit, if_pos (by omega), Nat.add_sub_cancel' hlow.1, UInt8.ofNat_toNat]
    · split at h
      · next hb =>
        have hlow : 97 ≤ b.toNat ∧ b.toNat ≤ 102 := hb
        cases h
        refine ⟨by omega, ?_⟩
        rw [hexDigit, if_neg (by omega), Nat.add_sub_cancel' (by omega), UInt8.ofNat_toNat]
      · cases h
  · rintro ⟨hv, rfl⟩
    exact digitValue?_hexDigit hv

/-- Four bytes are the digits of one number at most, and each number below 65536 has its digits. -/
theorem readLength_eq_some_iff {bytes rest : List UInt8} {n : Nat} :
    readLength bytes = some (n, rest) ↔ n < 65536 ∧ bytes = hex4 n ++ rest := by
  constructor
  · intro h
    unfold readLength at h
    split at h
    · next a b c d rest' =>
      simp only [Option.bind_eq_bind, Option.bind_eq_some_iff, Option.pure_def,
        Option.some.injEq, Prod.mk.injEq] at h
      obtain ⟨va, ha, vb, hb, vc, hc, vd, hd, rfl, rfl⟩ := h
      obtain ⟨hva, rfl⟩ := digitValue?_eq_some_iff.1 ha
      obtain ⟨hvb, rfl⟩ := digitValue?_eq_some_iff.1 hb
      obtain ⟨hvc, rfl⟩ := digitValue?_eq_some_iff.1 hc
      obtain ⟨hvd, rfl⟩ := digitValue?_eq_some_iff.1 hd
      refine ⟨by omega, ?_⟩
      have h₁ : ((va * 16 + vb) * 256 + (vc * 16 + vd)) / 4096 % 16 = va := by omega
      have h₂ : ((va * 16 + vb) * 256 + (vc * 16 + vd)) / 256 % 16 = vb := by omega
      have h₃ : ((va * 16 + vb) * 256 + (vc * 16 + vd)) / 16 % 16 = vc := by omega
      have h₄ : ((va * 16 + vb) * 256 + (vc * 16 + vd)) % 16 = vd := by omega
      rw [hex4, h₁, h₂, h₃, h₄]
      rfl
    · cases h
  · rintro ⟨hn, rfl⟩
    have hmod : ∀ m, m % 16 < 16 := fun m ↦ Nat.mod_lt m (by decide)
    have hsum : (n / 4096 % 16 * 16 + n / 256 % 16) * 256 + (n / 16 % 16 * 16 + n % 16) = n := by
      omega
    simp [readLength, hex4, digitValue?_hexDigit (hmod _), hsum]

/-! ## Packets -/

/-- Only the first bytes of a payload are written. -/
theorem encode_take (data : List UInt8) : encode (data.take maxPayload) = encode data := by
  rw [encode, encode, List.take_take, Nat.min_self]

theorem encode_of_fits {data : List UInt8} (h : data.length ≤ maxPayload) :
    encode data = hex4 (data.length + 4) ++ data := by
  rw [encode, List.take_of_length_le h]

theorem readPacket_flush (rest : List UInt8) : readPacket (flush ++ rest) = some (.flush, rest) := by
  have hlength : readLength (flush ++ rest) = some (0, rest) :=
    readLength_eq_some_iff.2 ⟨by decide, rfl⟩
  rw [readPacket, hlength]
  exact if_pos rfl

theorem readPacket_encode {data : List UInt8} (hdata : data.length ≤ maxPayload)
    (rest : List UInt8) : readPacket (encode data ++ rest) = some (.payload data, rest) := by
  have hbound : data.length ≤ 65516 := hdata
  have hlength : readLength (encode data ++ rest) = some (data.length + 4, data ++ rest) :=
    readLength_eq_some_iff.2 ⟨by omega, by rw [encode_of_fits hdata, List.append_assoc]⟩
  have hvalid : ¬ (data.length + 4 < 4 ∨ maxLength < data.length + 4 ∨
      (data ++ rest).length < data.length + 4 - 4) := by
    rw [maxLength, List.length_append]
    omega
  rw [readPacket, hlength]
  dsimp only
  rw [if_neg (Nat.succ_ne_zero _), if_neg hvalid, Nat.add_sub_cancel, List.take_left,
    List.drop_left]

/-- Whatever is read as a packet was written as one. -/
theorem eq_of_readPacket {bytes rest : List UInt8} {p : Packet}
    (h : readPacket bytes = some (p, rest)) : p.Fits ∧ bytes = p.bytes ++ rest := by
  unfold readPacket at h
  split at h
  · cases h
  · next n behind hlength =>
    obtain ⟨-, rfl⟩ := readLength_eq_some_iff.1 hlength
    split at h
    · next hzero =>
      cases h
      exact ⟨trivial, by rw [hzero]; rfl⟩
    · split at h
      · cases h
      · next hvalid =>
        cases h
        have hlength : (behind.take (n - 4)).length = n - 4 := by
          rw [List.length_take]
          omega
        have hfits : (behind.take (n - 4)).length ≤ maxPayload := by
          rw [hlength, maxPayload]
          rw [maxLength] at hvalid
          omega
        refine ⟨hfits, ?_⟩
        rw [Packet.bytes, encode_of_fits hfits, hlength, Nat.sub_add_cancel (by omega),
          List.append_assoc, List.take_append_drop]

/-- The reader accepts exactly the packets that are written, and leaves what stands behind them. -/
theorem readPacket_eq_some_iff {bytes rest : List UInt8} {p : Packet} :
    readPacket bytes = some (p, rest) ↔ p.Fits ∧ bytes = p.bytes ++ rest := by
  refine ⟨eq_of_readPacket, ?_⟩
  rintro ⟨hfits, rfl⟩
  cases p with
  | payload data => exact readPacket_encode hfits rest
  | flush => exact readPacket_flush rest

/-- Every packet has bytes. -/
theorem Packet.length_bytes_pos (p : Packet) : 0 < p.bytes.length := by
  cases p with
  | payload data => simp [Packet.bytes, encode, hex4]
  | flush => decide

/-- What stands behind a packet is shorter. -/
theorem length_of_readPacket {bytes rest : List UInt8} {p : Packet}
    (h : readPacket bytes = some (p, rest)) : rest.length < bytes.length := by
  rw [(readPacket_eq_some_iff.1 h).2, List.length_append]
  exact Nat.lt_add_of_pos_left p.length_bytes_pos

/-! ## Messages -/

/-- Reads the payloads of a message up to its end; gives the bytes behind it as well. -/
def readMessage (bytes : List UInt8) : Option (List (List UInt8) × List UInt8) :=
  match _ : readPacket bytes with
  | none => none
  | some (.flush, rest) => some ([], rest)
  | some (.payload data, rest) =>
    (readMessage rest).map fun (payloads, rest) => (data :: payloads, rest)
termination_by bytes.length
decreasing_by exact length_of_readPacket (by assumption)

/-- The bytes of a message. -/
def message (payloads : List (List UInt8)) : List UInt8 := payloads.flatMap encode ++ flush

theorem readMessage_flush (rest : List UInt8) : readMessage (flush ++ rest) = some ([], rest) := by
  have h := readPacket_flush rest
  rw [readMessage]
  split <;> simp_all

theorem readMessage_encode {data : List UInt8} (hdata : data.length ≤ maxPayload)
    (bytes : List UInt8) : readMessage (encode data ++ bytes) =
      (readMessage bytes).map fun (payloads, rest) ↦ (data :: payloads, rest) := by
  have h := readPacket_encode hdata bytes
  rw [readMessage]
  split <;> simp_all

theorem readMessage_message {payloads : List (List UInt8)}
    (h : ∀ data ∈ payloads, data.length ≤ maxPayload) (rest : List UInt8) :
    readMessage (message payloads ++ rest) = some (payloads, rest) := by
  induction payloads with
  | nil => exact readMessage_flush rest
  | cons data payloads ih =>
    have hrest := ih fun d hd ↦ h d (List.mem_cons_of_mem _ hd)
    rw [message, List.flatMap_cons, List.append_assoc, List.append_assoc,
      readMessage_encode (h data List.mem_cons_self)]
    rw [message, List.append_assoc] at hrest
    rw [hrest]
    rfl

/-- Whatever is read as a message was written as one. -/
theorem eq_message_of_readMessage {bytes rest : List UInt8} {payloads : List (List UInt8)}
    (h : readMessage bytes = some (payloads, rest)) :
    (∀ data ∈ payloads, data.length ≤ maxPayload) ∧ bytes = message payloads ++ rest := by
  fun_induction readMessage bytes generalizing payloads with
  | case1 => cases h
  | case2 bytes rest' hread =>
    cases h
    exact ⟨List.forall_mem_nil _, (readPacket_eq_some_iff.1 hread).2⟩
  | case3 bytes data rest' hread ih =>
    obtain ⟨⟨later, rest''⟩, hlater, heq⟩ := Option.map_eq_some_iff.1 h
    cases heq
    obtain ⟨hfits, hbytes⟩ := readPacket_eq_some_iff.1 hread
    obtain ⟨hall, rfl⟩ := ih hlater
    refine ⟨List.forall_mem_cons.2 ⟨hfits, hall⟩, ?_⟩
    rw [hbytes, message, message, List.flatMap_cons, List.append_assoc, List.append_assoc,
      List.append_assoc]
    rfl

/-- A message holds its payloads as far as they are written. -/
theorem message_map_take (payloads : List (List UInt8)) :
    message (payloads.map (List.take maxPayload)) = message payloads := by
  rw [message, message, List.flatMap_map]
  exact congrArg (· ++ flush) (congrArg (payloads.flatMap ·) (funext encode_take))

theorem encodeError_eq (text : String) :
    encodeError text = message [Text.Utf8.encode ("ERR " ++ text ++ "\n")] := by
  rw [encodeError, message, List.flatMap_singleton]

/-- **Packet lines are self-delimiting.**  Take payloads of any number and any lengths.  Their packet
lines with the flush behind them are read back as these payloads, each cut where it is too long, and
nothing of what follows is taken, nor is anything left of them.  What reports a failure is one
payload.  And nothing else is read as a message: the payloads that come out of a reader, and what it
leaves, tell all the bytes it read. -/
theorem messages_read_back (payloads : List (List UInt8)) (text : String)
    (bytes rest : List UInt8) :
    readMessage (payloads.flatMap encode ++ flush ++ rest) =
        some (payloads.map (List.take maxPayload), rest) ∧
      readMessage (encodeError text ++ rest) =
        some ([(Text.Utf8.encode ("ERR " ++ text ++ "\n")).take maxPayload], rest) ∧
      (readMessage bytes = some (payloads, rest) ↔
        (∀ data ∈ payloads, data.length ≤ maxPayload) ∧
          bytes = payloads.flatMap encode ++ flush ++ rest) := by
  have hread : ∀ payloads, readMessage (message payloads ++ rest) =
      some (payloads.map (List.take maxPayload), rest) := by
    intro payloads
    have hcut : ∀ data ∈ payloads.map (List.take maxPayload), data.length ≤ maxPayload := by
      intro data hdata
      obtain ⟨whole, -, rfl⟩ := List.mem_map.1 hdata
      exact List.length_take_le _ _
    rw [← message_map_take]
    exact readMessage_message hcut rest
  refine ⟨hread payloads, ?_, eq_message_of_readMessage, ?_⟩
  · rw [encodeError_eq]
    exact hread _
  · rintro ⟨hfits, rfl⟩
    exact readMessage_message hfits rest

end GitGateway.Git.PktLine
