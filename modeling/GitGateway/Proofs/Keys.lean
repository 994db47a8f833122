import GitGateway.Proofs.Settings
import GitGateway.Proofs.Symbols
import GitGateway.Proofs.Words
import GitGateway.Ssh.HostKey
import Mathlib.Data.String.Basic

/-!
# Keys and the lines that hold them

A key is read from the first two words of a line and compared as a text.  That tells keys apart as
their bytes do, since no byte sequence has two canonical texts: two lines hold one key exactly if
they name one algorithm and stand for the same bytes (`ClientKey.ofLine_identity`).

A client proves to hold a key of the transport (`Ssh.PublicKey`).  Its bytes begin with the name of
its kind, and that is the name on the line that its owner hands out.  The transport names an RSA key
by the signature that was agreed on instead, so its line is never the key that the owner connects
with, while every other key is the one on its line (`Ssh.PublicKey.ofBlob_recognised_iff`).
-/

namespace GitGateway

namespace Text.Utf8

/-! ## The bytes of a text -/

theorem toListLoop_eq (bytes : ByteArray) (i : Nat) (read : List UInt8) :
    ByteArray.toList.loop bytes i read = read.reverse ++ bytes.data.toList.drop i := by
  fun_induction ByteArray.toList.loop bytes i read with
  | case1 i read h ih =>
    have hsize : i < bytes.data.toList.length := h
    have hget : bytes.get! i = bytes.data.toList[i] := by
      simp [ByteArray.get!, getElem!_pos bytes.data i h]
    rw [ih, List.drop_eq_getElem_cons hsize, hget, List.reverse_cons, List.append_assoc]
    rfl
  | case2 i read h => rw [List.drop_eq_nil_of_le (Nat.not_lt.1 h), List.append_nil]

theorem encode_eq (s : String) : encode s = s.toByteArray.data.toList := by
  rw [encode, ByteArray.toList, toListLoop_eq]
  rfl

theorem encode_ofList (cs : List Char) :
    encode (String.ofList cs) = cs.flatMap String.utf8EncodeChar := by
  rw [encode_eq, String.toByteArray_ofList, List.utf8Encode, List.toList_data_toByteArray]

theorem encode_injective : Function.Injective encode := by
  intro s t h
  rw [encode_eq, encode_eq] at h
  exact String.toByteArray_inj.1 (ByteArray.ext (Array.toList_inj.1 h))

end Text.Utf8

namespace ClientKey

open Text.Utf8 (encode)

/-! ## Texts of bytes below 128 -/

theorem utf8EncodeChar_ofNat {n : Nat} (h : n < 128) :
    String.utf8EncodeChar (Char.ofNat n) = [UInt8.ofNat n] := by
  have hall : ∀ n : Fin 128, String.utf8EncodeChar (Char.ofNat n.1) = [UInt8.ofNat n.1] := by
    decide +kernel
  exact hall ⟨n, h⟩

theorem encode_ofAscii {bs : List UInt8} (h : ∀ b ∈ bs, b < 128) : encode (ofAscii bs) = bs := by
  rw [ofAscii, Text.Utf8.encode_ofList, List.flatMap_map]
  induction bs with
  | nil => rfl
  | cons b bs ih =>
    obtain ⟨hb, hbs⟩ := List.forall_mem_cons.1 h
    rw [List.flatMap_cons, utf8EncodeChar_ofNat (UInt8.lt_iff_toNat_lt.1 hb), ih hbs,
      UInt8.ofNat_toNat]
    rfl

/-- The symbols of Base64 are characters for themselves, and none is blank. -/
theorem plain_of_mem_encode {b : UInt8} {bs : List UInt8} (h : b ∈ Bytes.Base64.encode bs) :
    b < 128 ∧ Text.isBlank (Char.ofNat b.toNat) = false := by
  have hall : ∀ v : Fin 64, Bytes.Base64.symbol v.1 < 128 ∧
      Text.isBlank (Char.ofNat (Bytes.Base64.symbol v.1).toNat) = false := by decide
  obtain rfl | ⟨v, hv, rfl⟩ := Bytes.Base64.exists_of_mem_encode h
  · decide
  · exact hall ⟨v, hv⟩

theorem encode_of_ascii {s : String} (h : ∀ c ∈ s.toList, c.toNat < 128) :
    encode s = s.toList.map fun c ↦ UInt8.ofNat c.toNat := by
  conv_lhs => rw [← String.ofList_toList (s := s), Text.Utf8.encode_ofList]
  generalize s.toList = cs at h
  induction cs with
  | nil => rfl
  | cons c cs ih =>
    obtain ⟨hc, hcs⟩ := List.forall_mem_cons.1 h
    have hencode := utf8EncodeChar_ofNat hc
    rw [Char.ofNat_toNat] at hencode
    rw [List.flatMap_cons, hencode, ih hcs]
    rfl

theorem ofAscii_encode {s : String} (h : ∀ c ∈ s.toList, c.toNat < 128) :
    ofAscii (encode s) = s := by
  have hback : ∀ c ∈ s.toList, Char.ofNat (UInt8.ofNat c.toNat).toNat = id c := by
    intro c hc
    have hlt : c.toNat < 2 ^ 8 := Nat.lt_trans (h c hc) (by decide)
    rw [UInt8.toNat_ofNat_of_lt' hlt, Char.ofNat_toNat]
    rfl
  rw [encode_of_ascii h, ofAscii, List.map_map]
  exact (congrArg String.ofList ((List.map_congr_left hback).trans (List.map_id _))).trans
    String.ofList_toList

/-! ## Lines -/

variable {line line' : String} {k k' : ClientKey} {bytes : List UInt8}

/-- A key is held by the lines whose first two words are its algorithm and its data, if its data is
the canonical text of some bytes. -/
theorem ofLine_eq_ok_iff : ofLine line = .ok k ↔
    (∃ rest, Text.Spells (k.algorithm.toList :: k.data.toList :: rest) line.toList) ∧
      ∃ bytes, encode k.data = Bytes.Base64.encode bytes := by
  simp only [← Text.words_eq_iff, ← Bytes.Base64.decode_eq_ok_iff]
  rw [ofLine]
  generalize Text.words line.toList = ws
  obtain _ | ⟨a, _ | ⟨d, rest⟩⟩ := ws
  · simp
  · simp
  · simp only [List.map_cons, List.cons.injEq]
    constructor
    · intro h
      split at h
      · next bytes hbytes =>
        cases h
        exact ⟨⟨rest, by simp⟩, bytes, hbytes⟩
      · cases h
    · rintro ⟨⟨rest', ha, hd, -⟩, bytes, hbytes⟩
      have ha' : String.ofList a = k.algorithm := by rw [ha, String.ofList_toList]
      have hd' : String.ofList d = k.data := by rw [hd, String.ofList_toList]
      rw [ha', hd', hbytes]

theorem blob_eq (h : encode k.data = Bytes.Base64.encode bytes) : k.blob = bytes := by
  rw [blob, Bytes.Base64.decode_eq_ok_iff.2 h]

theorem encode_data (h : ofLine line = .ok k) : encode k.data = Bytes.Base64.encode k.blob := by
  obtain ⟨-, bytes, hbytes⟩ := ofLine_eq_ok_iff.1 h
  rw [blob_eq hbytes, hbytes]

/-- A key is held by any line that begins with it. -/
theorem ofLine_words (halgorithm : Text.IsWord k.algorithm.toList)
    (hword : Text.IsWord k.data.toList) (hdata : encode k.data = Bytes.Base64.encode bytes)
    {tail : String} (htail : ∀ c ∈ tail.toList.head?, Text.isBlank c = true) :
    ofLine (k.line ++ tail) = .ok k := by
  obtain ⟨rest, hrest⟩ := Text.exists_spells tail.toList
  have hline : (k.line ++ tail).toList =
      k.algorithm.toList ++ ' ' :: (k.data.toList ++ tail.toList) := by
    simp [ClientKey.line]
  refine ofLine_eq_ok_iff.2 ⟨⟨rest, ?_⟩, bytes, hdata⟩
  rw [hline]
  exact .word halgorithm (by simp [Text.isBlank]) (.blank rfl (.word hword htail hrest))

/-- The line of a key holds it, whatever line it was read from. -/
theorem ofLine_line (h : ofLine line = .ok k) : ofLine k.line = .ok k := by
  obtain ⟨⟨rest, hwords⟩, bytes, hdata⟩ := ofLine_eq_ok_iff.1 h
  have hword := Text.isWord_of_spells hwords
  simp only [List.forall_mem_cons] at hword
  rw [← String.append_empty (s := k.line)]
  exact ofLine_words hword.1 hword.2.1 hdata (by simp)

theorem exists_ofLine_iff : (∃ k, ofLine line = .ok k) ↔ ∃ a d rest,
    Text.Spells (a :: d :: rest) line.toList ∧
      Bytes.Base64.IsCanonical (encode (String.ofList d)) := by
  simp only [ofLine_eq_ok_iff, Bytes.Base64.isCanonical_iff_exists_encode]
  constructor
  · rintro ⟨k, ⟨rest, hwords⟩, hdata⟩
    exact ⟨_, _, rest, hwords, by rwa [String.ofList_toList]⟩
  · rintro ⟨a, d, rest, hwords, hdata⟩
    exact ⟨⟨String.ofList a, String.ofList d⟩, ⟨rest, by simpa using hwords⟩, hdata⟩

/-- Two keys with the same bytes have the same data. -/
theorem data_eq_iff (h : ofLine line = .ok k) (h' : ofLine line' = .ok k') :
    k.data = k'.data ↔ k.blob = k'.blob := by
  rw [← Text.Utf8.encode_injective.eq_iff, encode_data h, encode_data h',
    Bytes.Base64.encode_injective.eq_iff]

/-- A line holds a key exactly if it has a second word and that is canonical Base64, and the line of
a key holds it again.  Two lines hold one key exactly if their first words are the same and their
second words stand for the same bytes, which alone give the fingerprint. -/
theorem ofLine_identity (line line' : String) :
    ((∃ k, ofLine line = .ok k) ↔ ∃ a d rest, Text.Spells (a :: d :: rest) line.toList ∧
      Bytes.Base64.IsCanonical (encode (String.ofList d))) ∧
    ∀ k k', ofLine line = .ok k → ofLine line' = .ok k' → ofLine k.line = .ok k ∧
      ∃ a d rest bytes a' d' rest' bytes',
        Text.Spells (a :: d :: rest) line.toList ∧
        Text.Spells (a' :: d' :: rest') line'.toList ∧
        Bytes.Base64.decode (encode (String.ofList d)) = .ok bytes ∧
        Bytes.Base64.decode (encode (String.ofList d')) = .ok bytes' ∧
        (k = k' ↔ a = a' ∧ bytes = bytes') ∧
        (bytes = bytes' → k.fingerprint = k'.fingerprint) := by
  refine ⟨exists_ofLine_iff, fun k k' h h' ↦ ⟨ofLine_line h, ?_⟩⟩
  obtain ⟨⟨rest, hwords⟩, -⟩ := ofLine_eq_ok_iff.1 h
  obtain ⟨⟨rest', hwords'⟩, -⟩ := ofLine_eq_ok_iff.1 h'
  refine ⟨_, _, rest, k.blob, _, _, rest', k'.blob, hwords, hwords', ?_, ?_, ?_, ?_⟩
  · rw [String.ofList_toList, Bytes.Base64.decode_eq_ok_iff, encode_data h]
  · rw [String.ofList_toList, Bytes.Base64.decode_eq_ok_iff, encode_data h']
  · rw [← data_eq_iff h h', String.toList_inj]
    cases k
    cases k'
    rw [ClientKey.mk.injEq]
  · intro hblob
    rw [fingerprint, fingerprint, hblob]

/-- One key on two lines. -/
theorem one_key_on_two_lines : ∃ k, ofLine "ssh-ed25519 AAEC alice@laptop" = .ok k ∧
    ofLine "\tssh-ed25519\u3000AAEC" = .ok k ∧ ofLine k.line = .ok k := by
  have h : ofLine "ssh-ed25519 AAEC alice@laptop" = .ok ⟨"ssh-ed25519", "AAEC"⟩ := by
    decide +kernel
  have h' : ofLine "\tssh-ed25519\u3000AAEC" = .ok ⟨"ssh-ed25519", "AAEC"⟩ := by
    decide +kernel
  exact ⟨_, h, h', ((ofLine_identity _ _).2 _ _ h h').1⟩

/-! ## Names in front of bytes -/

theorem bigEndian_four (n : Nat) : Bytes.Sha256.bigEndian 4 n =
    [UInt8.ofNat (n / 2 ^ 24), UInt8.ofNat (n / 2 ^ 16), UInt8.ofNat (n / 2 ^ 8),
      UInt8.ofNat n] := by
  simp [Bytes.Sha256.bigEndian, List.range_succ, Nat.shiftRight_eq_div_pow]

/-- The bytes of a key begin with the name of its kind. -/
theorem blobAlgorithm_encodeText {s : String} (h : ∀ c ∈ s.toList, c.toNat < 128)
    (hlength : (encode s).length < 2 ^ 32) (rest : List UInt8) :
    blobAlgorithm (Ssh.HostKey.encodeText s ++ rest) = s := by
  rw [Ssh.HostKey.encodeText, Bytes.Wire.encode, bigEndian_four]
  simp only [blobAlgorithm, List.cons_append, List.nil_append, UInt8.toNat_ofNat']
  have hnumber : ∀ n < 2 ^ 32, ((n / 2 ^ 24 % 2 ^ 8 * 256 + n / 2 ^ 16 % 2 ^ 8) * 256 +
      n / 2 ^ 8 % 2 ^ 8) * 256 + n % 2 ^ 8 = n := by omega
  rw [hnumber _ hlength, List.take_left, ofAscii_encode h]

end ClientKey

namespace Policy

variable {us : List UserSettings} {vs : List User} {v : User} {k : ClientKey}

/-- A key's user is the first one with a line that holds the key. -/
theorem find?_of_readUsers (h : readUsers us = .ok vs) :
    vs.find? (fun u ↦ u.keys.contains k) = some v ↔ ∃ before u after, us = before ++ u :: after ∧
      ReadsAs u v ∧ (∃ line ∈ u.keys, ClientKey.ofLine line = .ok k) ∧
      ∀ w ∈ before, ∀ line ∈ w.keys, ClientKey.ofLine line ≠ .ok k := by
  induction us generalizing vs with
  | nil =>
    cases h
    simp
  | cons u us ih =>
    obtain ⟨v', rest, hv', hrest, rfl⟩ := readUsers_cons_eq_ok_iff.1 h
    have hlists : v'.keys.contains k = true ↔ ∃ line ∈ u.keys, ClientKey.ofLine line = .ok k := by
      rw [List.contains_iff_mem, mem_of_readKeys hv'.keys]
    by_cases hk : ∃ line ∈ u.keys, ClientKey.ofLine line = .ok k
    · rw [List.find?_cons_of_pos (p := fun u : User ↦ u.keys.contains k) (hlists.2 hk),
        Option.some.injEq]
      constructor
      · rintro rfl
        exact ⟨[], u, us, rfl, hv', hk, List.forall_mem_nil _⟩
      · rintro ⟨before, u', after, hus, hv, -, hbefore⟩
        cases before with
        | nil =>
          cases hus
          exact hv'.eq hv
        | cons w before =>
          cases hus
          obtain ⟨line, hline, hread⟩ := hk
          exact absurd hread (hbefore _ List.mem_cons_self line hline)
    · rw [List.find?_cons_of_neg (p := fun u : User ↦ u.keys.contains k) (mt hlists.1 hk),
        ih hrest]
      constructor
      · rintro ⟨before, u', after, rfl, hv, hholds, hbefore⟩
        refine ⟨u :: before, u', after, rfl, hv, hholds, List.forall_mem_cons.2 ⟨?_, hbefore⟩⟩
        exact fun line hline hread ↦ hk ⟨line, hline, hread⟩
      · rintro ⟨before, u', after, hus, hv, hholds, hbefore⟩
        cases before with
        | nil =>
          cases hus
          exact absurd hholds hk
        | cons w before =>
          cases hus
          exact ⟨before, u', after, rfl, hv, hholds, (List.forall_mem_cons.1 hbefore).2⟩

end Policy

namespace Ssh

/-! ## Keys from the transport -/

/-- A public key that a client proves to hold. -/
inductive PublicKey where
  | ed25519 (point : List UInt8)
  | ecdsa (curve : Crypto.Curve) (isKnown : curve ∈ Crypto.Curve.all) (point : List UInt8)
  | rsa (exponent modulus : Nat)

namespace PublicKey

/-- The name of the key's kind, with which its bytes begin. -/
def kind : PublicKey → String
  | .ed25519 _ => "ssh-ed25519"
  | .ecdsa curve _ _ => "ecdsa-sha2-" ++ curve.name
  | .rsa _ _ => "ssh-rsa"

/-- The name of the signature that the transport has agreed on. -/
def name : PublicKey → String
  | .rsa _ _ => RsaHash.sha256.name
  | k => k.kind

/-- Whether the key is named by the signature rather than by its kind. -/
def isRsa : PublicKey → Bool
  | .rsa _ _ => true
  | _ => false

/-- The bytes of the key. -/
def blob (key : PublicKey) : List UInt8 :=
  HostKey.encodeText key.kind ++
    match key with
    | .ed25519 point => Bytes.Wire.encode point
    | .ecdsa curve _ point => HostKey.encodeText curve.name ++ Bytes.Wire.encode point
    | .rsa exponent modulus =>
      Bytes.Wire.encodeInteger exponent ++ Bytes.Wire.encodeInteger modulus

/-- The Base64 text of the bytes. -/
def data (key : PublicKey) : String := ClientKey.ofAscii (Bytes.Base64.encode key.blob)

/-- The line that stands for the key in a file of keys. -/
def line (key : PublicKey) (comment : Option String) : String :=
  key.kind ++ " " ++ key.data ++ comment.elim "" (" " ++ ·)

/-- All kinds of keys. -/
def kinds : List String :=
  "ssh-rsa" :: "ssh-ed25519" :: Crypto.Curve.all.map ("ecdsa-sha2-" ++ ·.name)

theorem kind_mem (key : PublicKey) : key.kind ∈ kinds := by
  cases key with
  | rsa => exact List.mem_cons_self
  | ed25519 => exact List.mem_cons_of_mem _ List.mem_cons_self
  | ecdsa curve isKnown =>
    refine List.mem_cons_of_mem _ (List.mem_cons_of_mem _ ?_)
    exact List.mem_map_of_mem (f := ("ecdsa-sha2-" ++ ·.name)) isKnown

theorem kind_ascii (key : PublicKey) : ∀ c ∈ key.kind.toList, c.toNat < 128 := by
  have hall : kinds.all (fun s ↦ s.toList.all fun c ↦ decide (c.toNat < 128)) = true := by decide
  simp only [List.all_eq_true, decide_eq_true_eq] at hall
  exact hall _ key.kind_mem

theorem isWord_kind (key : PublicKey) : Text.IsWord key.kind.toList := by
  have hall : kinds.all (fun s ↦ s != "" && s.toList.all (!Text.isBlank ·)) = true := by decide
  simp only [List.all_eq_true, Bool.and_eq_true, bne_iff_ne, Bool.not_eq_true'] at hall
  obtain ⟨hne, hblank⟩ := hall _ key.kind_mem
  exact ⟨fun hnil ↦ hne (String.toList_eq_nil_iff.1 hnil), hblank⟩

theorem name_eq (key : PublicKey) : key.name = ClientKey.transportAlgorithm key.kind := by
  cases key with
  | rsa => rfl
  | ed25519 => rfl
  | ecdsa curve isKnown =>
    have hall : ∀ c ∈ Crypto.Curve.all,
        "ecdsa-sha2-" ++ c.name = ClientKey.transportAlgorithm ("ecdsa-sha2-" ++ c.name) := by
      decide
    exact hall curve isKnown

theorem name_eq_kind_iff (key : PublicKey) : key.name = key.kind ↔ key.isRsa = false := by
  cases key with
  | rsa => exact iff_of_false (by simp [name, kind, RsaHash.name]) (by simp [isRsa])
  | ed25519 | ecdsa => exact iff_of_true rfl rfl

/-- The transport gives the key under the name of its signature. -/
theorem ofBlob_blob (key : PublicKey) : ClientKey.ofBlob key.blob = ⟨key.name, key.data⟩ := by
  have hlength : (Text.Utf8.encode key.kind).length < 2 ^ 32 := by
    have hall : ∀ s ∈ kinds, s.toList.length < 2 ^ 32 := by decide
    rw [ClientKey.encode_of_ascii key.kind_ascii, List.length_map]
    exact hall _ key.kind_mem
  rw [ClientKey.ofBlob, name_eq]
  congr 2
  exact ClientKey.blobAlgorithm_encodeText key.kind_ascii hlength _

theorem encode_data (key : PublicKey) :
    Text.Utf8.encode key.data = Bytes.Base64.encode key.blob :=
  ClientKey.encode_ofAscii fun _ hb ↦ (ClientKey.plain_of_mem_encode hb).1

theorem isWord_data (key : PublicKey) : Text.IsWord key.data.toList := by
  have hblob : key.blob ≠ [] := by
    simp [blob, HostKey.encodeText, Bytes.Wire.encode, ClientKey.bigEndian_four]
  have hdata : key.data.toList =
      (Bytes.Base64.encode key.blob).map fun b ↦ Char.ofNat b.toNat :=
    String.toList_ofList
  rw [hdata]
  constructor
  · exact mt List.map_eq_nil_iff.1 (mt Bytes.Base64.encode_eq_nil_iff.1 hblob)
  · intro c hc
    obtain ⟨b, hb, rfl⟩ := List.mem_map.1 hc
    exact (ClientKey.plain_of_mem_encode hb).2

/-- The line of a key holds it under the name of its kind. -/
theorem ofLine_line (key : PublicKey) (comment : Option String) :
    ClientKey.ofLine (key.line comment) = .ok ⟨key.kind, key.data⟩ := by
  have hcomment : ∀ c ∈ (comment.elim "" (" " ++ ·)).toList.head?, Text.isBlank c = true := by
    cases comment with
    | none => simp
    | some comment =>
      intro c hc
      obtain rfl : ' ' = c := by simpa using hc
      rfl
  exact ClientKey.ofLine_words (k := ⟨key.kind, key.data⟩) key.isWord_kind key.isWord_data
    key.encode_data hcomment

/-- The line names the key as the transport does. -/
def IsNamedBy (key : PublicKey) (line : String) : Prop :=
  ∃ rest, Text.Spells (key.name.toList :: key.data.toList :: rest) line.toList

theorem ofLine_eq_ofBlob_iff (key : PublicKey) (line : String) :
    ClientKey.ofLine line = .ok (ClientKey.ofBlob key.blob) ↔ key.IsNamedBy line := by
  rw [ofBlob_blob, ClientKey.ofLine_eq_ok_iff]
  exact and_iff_left ⟨key.blob, key.encode_data⟩

/-- The line of a key and the key from the transport are the same key exactly if the key is no RSA
key.  Whoever proves to hold a key is the administrator, or the first user, with a line that names
the key as the transport does. -/
theorem ofBlob_recognised_iff (key : PublicKey) {settings : AccessSettings} {p : Policy}
    (hp : Policy.ofSettings settings = .ok p) :
    (∀ comment, ∃ k, ClientKey.ofLine (key.line comment) = .ok k ∧ k.blob = key.blob ∧
      k.fingerprint = (ClientKey.ofBlob key.blob).fingerprint ∧
      (ClientKey.ofBlob key.blob = k ↔ key.isRsa = false)) ∧
    (∀ comment, key.IsNamedBy (key.line comment) ↔ key.isRsa = false) ∧
    (p.isAdmin (some (ClientKey.ofBlob key.blob)) = true ↔
      ∃ line ∈ settings.adminKeys, key.IsNamedBy line) ∧
    ∀ v, p.userOf (ClientKey.ofBlob key.blob) = some v ↔ ∃ before u after,
      settings.users = before ++ u :: after ∧ Policy.ReadsAs u v ∧
      (∃ line ∈ u.keys, key.IsNamedBy line) ∧
      ∀ w ∈ before, ∀ line ∈ w.keys, ¬ key.IsNamedBy line := by
  obtain ⟨hadmins, husers, -⟩ := Policy.ofSettings_eq_ok_iff.1 hp
  have hblob : ∀ name, ClientKey.blob ⟨name, key.data⟩ = key.blob := fun name ↦
    ClientKey.blob_eq key.encode_data
  refine ⟨fun comment ↦ ⟨_, key.ofLine_line comment, hblob _, ?_, ?_⟩, fun comment ↦ ?_, ?_,
    fun v ↦ ?_⟩
  · rw [ofBlob_blob, ClientKey.fingerprint, ClientKey.fingerprint, hblob, hblob]
  · rw [ofBlob_blob, ClientKey.mk.injEq, ← name_eq_kind_iff]
    exact and_iff_left rfl
  · rw [← ofLine_eq_ofBlob_iff, ofLine_line, ofBlob_blob, Except.ok.injEq, ClientKey.mk.injEq,
      ← name_eq_kind_iff, and_iff_left rfl, eq_comm]
  · simp only [Policy.isAdmin, Option.any_some, List.contains_iff_mem,
      Policy.mem_of_readKeys hadmins, ofLine_eq_ofBlob_iff]
  · simp only [Policy.userOf, Policy.find?_of_readUsers husers, ne_eq, ofLine_eq_ofBlob_iff]

/-- The settings that make a key's owner administrator, by a line with a comment. -/
def adminSettings (key : PublicKey) (comment : String) : AccessSettings :=
  { adminKeys := [key.line (some comment)] }

theorem ofSettings_admin (key : PublicKey) (comment : String) :
    Policy.ofSettings (key.adminSettings comment) =
      .ok ⟨.readOnly, true, [⟨key.kind, key.data⟩], [], []⟩ :=
  Policy.ofSettings_eq_ok_iff.2 ⟨Policy.readKeys_cons_eq_ok_iff.2
    ⟨_, [], key.ofLine_line (some comment), rfl, rfl⟩, rfl, rfl, rfl, rfl⟩

/-- The owner of an Ed25519 key is recognised. -/
theorem ed25519_administrator_recognised :
    let key := ed25519 (List.replicate 32 7)
    ∃ p, Policy.ofSettings (key.adminSettings "root@ops") = .ok p ∧
      p.isAdmin (some (ClientKey.ofBlob key.blob)) = true := by
  intro key
  have hp := key.ofSettings_admin "root@ops"
  obtain ⟨-, hnamed, hadmin, -⟩ := key.ofBlob_recognised_iff hp
  exact ⟨_, hp, hadmin.2 ⟨_, List.mem_singleton_self _, (hnamed (some "root@ops")).2 rfl⟩⟩

/-- The owner of an RSA key is not. -/
theorem rsa_administrator_not_recognised :
    let key := rsa 65537 ((2 ^ 521 - 1) * (2 ^ 607 - 1))
    ClientKey.ofLine (key.line (some "root@ops")) ≠ .ok (ClientKey.ofBlob key.blob) ∧
      ∃ p, Policy.ofSettings (key.adminSettings "root@ops") = .ok p ∧
        p.isAdmin (some (ClientKey.ofBlob key.blob)) = false := by
  intro key
  have hname : key.name ≠ key.kind := by simp [key, name, kind, RsaHash.name]
  have hne : ClientKey.ofBlob key.blob ≠ ⟨key.kind, key.data⟩ := by
    rw [ofBlob_blob]
    exact fun h ↦ hname (ClientKey.mk.inj h).1
  refine ⟨?_, _, key.ofSettings_admin "root@ops", ?_⟩
  · rw [ofLine_line]
    exact fun h ↦ hne (Except.ok.inj h).symm
  · simpa [Policy.isAdmin] using hne

end PublicKey

end Ssh

end GitGateway
