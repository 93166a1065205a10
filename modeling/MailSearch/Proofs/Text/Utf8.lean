import MailSearch.Text.Utf8

/-! # Texts as bytes

A text that is written as bytes is read again as it was. Bytes below 0x80 stand for ASCII characters
and are part of no other character, also where the bytes around them are not UTF-8.
-/

namespace MailSearch.Utf8

variable {c d : Char} {b lead : UInt8} {m n : Nat} {ns : List Nat} {s : Bytes}

theorem toNat_ofNat_byte (h : n < 256) : (UInt8.ofNat n).toNat = n :=
  UInt8.toNat_ofNat_of_lt' h

def tailByte (n : Nat) : UInt8 := UInt8.ofNat (n % 64 + 128)

theorem toNat_tailByte (n : Nat) : (tailByte n).toNat = n % 64 + 128 :=
  toNat_ofNat_byte (by omega)

theorem continuation_cons {k : Nat} {low high : UInt8} (hl : low.toNat ≤ b.toNat)
    (hh : b.toNat ≤ high.toNat) :
    continuation (k + 1) low high (b :: s) = b :: continuation k 0x80 0xbf s := by
  rw [continuation, if_pos ⟨UInt8.le_iff_toNat_le.mpr hl, UInt8.le_iff_toNat_le.mpr hh⟩]

theorem continuation_tailBytes (ns : List Nat) :
    continuation ns.length 0x80 0xbf (ns.map tailByte ++ s) = ns.map tailByte := by
  induction ns with
  | nil => rfl
  | cons n ns ih =>
    have hb := toNat_tailByte n
    rw [List.map_cons, List.cons_append, List.length_cons, continuation_cons, ih]
    · change 0x80 ≤ (tailByte n).toNat
      omega
    · change (tailByte n).toNat ≤ 0xbf
      omega

/-- The tail of a lead byte has this many bytes, of which the first may carry `n`. -/
def Admits (lead : UInt8) (count n : Nat) : Prop :=
  ∃ t, tail? lead = some t ∧ t.count = count ∧ t.low.toNat ≤ n % 64 + 128 ∧
    n % 64 + 128 ≤ t.high.toNat

theorem tail?_eq (lead : UInt8) : tail? lead =
    if 0xc2 ≤ lead.toNat ∧ lead.toNat ≤ 0xdf then some ⟨1, 0x80, 0xbf⟩
    else if lead.toNat = 0xe0 then some ⟨2, 0xa0, 0xbf⟩
    else if lead.toNat = 0xed then some ⟨2, 0x80, 0x9f⟩
    else if 0xe1 ≤ lead.toNat ∧ lead.toNat ≤ 0xef then some ⟨2, 0x80, 0xbf⟩
    else if lead.toNat = 0xf0 then some ⟨3, 0x90, 0xbf⟩
    else if 0xf1 ≤ lead.toNat ∧ lead.toNat ≤ 0xf3 then some ⟨3, 0x80, 0xbf⟩
    else if lead.toNat = 0xf4 then some ⟨3, 0x80, 0x8f⟩
    else none := by
  simp only [tail?, UInt8.le_iff_toNat_le, ← UInt8.toNat_inj]
  rfl

theorem admits_of_tail {count : Nat} {low high : UInt8} (l h : Nat)
    (ht : tail? lead = some ⟨count, low, high⟩) (hlow : low.toNat = l) (hhigh : high.toNat = h)
    (hl : l ≤ n % 64 + 128) (hh : n % 64 + 128 ≤ h) : Admits lead count n :=
  ⟨_, ht, rfl, hlow ▸ hl, hhigh ▸ hh⟩

theorem admits_one (h : 0xc2 ≤ lead.toNat) (h' : lead.toNat ≤ 0xdf) : Admits lead 1 n := by
  have ht := tail?_eq lead
  rw [if_pos ⟨h, h'⟩] at ht
  exact admits_of_tail 0x80 0xbf ht rfl rfl (by omega) (by omega)

/-- Overlong forms and surrogates are kept out by the byte after the lead. -/
theorem admits_two (h : 0xe0 ≤ lead.toNat) (h' : lead.toNat ≤ 0xef)
    (hlow : lead.toNat = 0xe0 → 0x20 ≤ n % 64) (hhigh : lead.toNat = 0xed → n % 64 < 0x20) :
    Admits lead 2 n := by
  have ht := tail?_eq lead
  rw [if_neg (by omega)] at ht
  by_cases he0 : lead.toNat = 0xe0
  · rw [if_pos he0] at ht
    exact admits_of_tail 0xa0 0xbf ht rfl rfl (by omega) (by omega)
  rw [if_neg he0] at ht
  by_cases hed : lead.toNat = 0xed
  · rw [if_pos hed] at ht
    exact admits_of_tail 0x80 0x9f ht rfl rfl (by omega) (by omega)
  · rw [if_neg hed, if_pos (by omega)] at ht
    exact admits_of_tail 0x80 0xbf ht rfl rfl (by omega) (by omega)

theorem admits_three (h : 0xf0 ≤ lead.toNat) (h' : lead.toNat ≤ 0xf4)
    (hlow : lead.toNat = 0xf0 → 0x10 ≤ n % 64) (hhigh : lead.toNat = 0xf4 → n % 64 < 0x10) :
    Admits lead 3 n := by
  have ht := tail?_eq lead
  rw [if_neg (by omega), if_neg (by omega), if_neg (by omega), if_neg (by omega)] at ht
  by_cases hf0 : lead.toNat = 0xf0
  · rw [if_pos hf0] at ht
    exact admits_of_tail 0x90 0xbf ht rfl rfl (by omega) (by omega)
  rw [if_neg hf0] at ht
  by_cases hf4 : lead.toNat = 0xf4
  · rw [if_neg (by omega), if_pos hf4] at ht
    exact admits_of_tail 0x80 0x8f ht rfl rfl (by omega) (by omega)
  · rw [if_pos (by omega)] at ht
    exact admits_of_tail 0x80 0xbf ht rfl rfl (by omega) (by omega)

theorem readChar_of_tail (hlead : 0x80 ≤ lead.toNat) (ht : Admits lead (ns.length + 1) n)
    (hcode : codePoint lead ((n :: ns).map tailByte) = m) :
    readChar lead ((n :: ns).map tailByte ++ s) = (some (Char.ofNat m), ns.length + 1) := by
  obtain ⟨t, ht, hcount, hl, hh⟩ := ht
  rw [← toNat_tailByte] at hl hh
  have hnot : ¬ lead < 0x80 := by
    rw [UInt8.lt_iff_toNat_lt]
    exact Nat.not_lt.mpr hlead
  have hrest : continuation t.count t.low t.high ((n :: ns).map tailByte ++ s) =
      (n :: ns).map tailByte := by
    rw [hcount, List.map_cons, List.cons_append, continuation_cons hl hh, continuation_tailBytes]
  simp only [readChar, if_neg hnot, ht, hrest, hcode]
  simp [hcount]

theorem readChar_ascii (h : lead.toNat < 0x80) :
    readChar lead s = (some (Char.ofNat lead.toNat), 0) := by
  rw [readChar, if_pos (UInt8.lt_iff_toNat_lt.mpr h)]

theorem readChar_one (h : n < 0x80) : readChar (UInt8.ofNat n) s = (some (Char.ofNat n), 0) := by
  have hlead : (UInt8.ofNat n).toNat = n := toNat_ofNat_byte (by omega)
  rw [readChar_ascii (by omega), hlead]

theorem readChar_two (h : 0x80 ≤ n) (h' : n < 0x800) :
    readChar (UInt8.ofNat (n / 64 % 32 + 192)) ([n].map tailByte ++ s) =
      (some (Char.ofNat n), 1) := by
  have hlead : (UInt8.ofNat (n / 64 % 32 + 192)).toNat = n / 64 % 32 + 192 :=
    toNat_ofNat_byte (by omega)
  have ht : Admits (UInt8.ofNat (n / 64 % 32 + 192)) 1 n := admits_one (by omega) (by omega)
  refine readChar_of_tail (by omega) ht ?_
  simp [codePoint, toNat_tailByte]
  omega

theorem readChar_three (h : 0x800 ≤ n) (h' : n < 0x10000) (hs : n < 0xd800 ∨ 0xdfff < n) :
    readChar (UInt8.ofNat (n / 4096 % 16 + 224)) ([n / 64, n].map tailByte ++ s) =
      (some (Char.ofNat n), 2) := by
  have hlead : (UInt8.ofNat (n / 4096 % 16 + 224)).toNat = n / 4096 % 16 + 224 :=
    toNat_ofNat_byte (by omega)
  have ht : Admits (UInt8.ofNat (n / 4096 % 16 + 224)) 2 (n / 64) :=
    admits_two (by omega) (by omega) (by omega) (by omega)
  refine readChar_of_tail (by omega) ht ?_
  simp [codePoint, toNat_tailByte]
  omega

theorem readChar_four (h : 0x10000 ≤ n) (h' : n < 0x110000) :
    readChar (UInt8.ofNat (n / 262144 % 8 + 240)) ([n / 4096, n / 64, n].map tailByte ++ s) =
      (some (Char.ofNat n), 3) := by
  have hlead : (UInt8.ofNat (n / 262144 % 8 + 240)).toNat = n / 262144 % 8 + 240 :=
    toNat_ofNat_byte (by omega)
  have ht : Admits (UInt8.ofNat (n / 262144 % 8 + 240)) 3 (n / 4096) :=
    admits_three (by omega) (by omega) (by omega) (by omega)
  refine readChar_of_tail (by omega) ht ?_
  simp [codePoint, toNat_tailByte]
  omega

/-- A character is a lead byte and at most three tail bytes. -/
theorem encodeChar_eq (c : Char) : String.utf8EncodeChar c =
    let n := c.toNat
    if n ≤ 127 then [UInt8.ofNat n]
    else if n ≤ 2047 then UInt8.ofNat (n / 64 % 32 + 192) :: [n].map tailByte
    else if n ≤ 65535 then UInt8.ofNat (n / 4096 % 16 + 224) :: [n / 64, n].map tailByte
    else UInt8.ofNat (n / 262144 % 8 + 240) :: [n / 4096, n / 64, n].map tailByte :=
  String.utf8EncodeChar.eq_1 c

/-- The bytes of a character are read as it. -/
theorem readChar_encodeChar (c : Char) (s : Bytes) :
    ∃ lead rest, String.utf8EncodeChar c = lead :: rest ∧
      readChar lead (rest ++ s) = (some c, rest.length) := by
  have hvalid : c.toNat < 0xd800 ∨ 0xdfff < c.toNat ∧ c.toNat < 0x110000 := c.valid
  have hencode := encodeChar_eq c
  have hc : some c = some (Char.ofNat c.toNat) := congrArg some (Char.ofNat_toNat c).symm
  rw [hc]
  generalize c.toNat = n at hvalid hencode
  simp only at hencode
  split at hencode
  · exact ⟨_, [], hencode, readChar_one (by omega)⟩
  split at hencode
  · exact ⟨_, _, hencode, readChar_two (by omega) (by omega)⟩
  split at hencode
  · exact ⟨_, _, hencode, readChar_three (by omega) (by omega) (by omega)⟩
  · exact ⟨_, _, hencode, readChar_four (by omega) (by omega)⟩

theorem scan_encodeChar (c : Char) (s : Bytes) :
    scan (String.utf8EncodeChar c ++ s) = some c :: scan s := by
  obtain ⟨lead, rest, hencode, hread⟩ := readChar_encodeChar c s
  rw [hencode, List.cons_append, scan, hread]
  simp

theorem scan_encode (cs : List Char) (s : Bytes) :
    scan (cs.flatMap String.utf8EncodeChar ++ s) = cs.map some ++ scan s := by
  induction cs with
  | nil => rfl
  | cons c cs ih =>
    rw [List.flatMap_cons, List.append_assoc, scan_encodeChar, ih, List.map_cons, List.cons_append]

theorem decodeLossy_encode (text : String) : decodeLossy (encode text) = text := by
  have h := scan_encode text.toList []
  rw [List.append_nil] at h
  simp [decodeLossy, encode, h, scan, Function.comp_def]

theorem decodeLossy_ascii (h : ∀ b ∈ s, b.toNat < 0x80) :
    decodeLossy s = String.ofList (s.map fun b => Char.ofNat b.toNat) := by
  have hscan : scan s = s.map fun b => some (Char.ofNat b.toNat) := by
    induction s with
    | nil => rw [scan, List.map_nil]
    | cons b s ih =>
      obtain ⟨hb, hs⟩ := List.forall_mem_cons.mp h
      rw [scan, readChar_ascii hb, List.map_cons, ← ih hs]
      rfl
  simp [decodeLossy, hscan, Function.comp_def]

theorem encodeChar_ascii (h : c.toNat < 0x80) : String.utf8EncodeChar c = [c.toUInt8] := by
  have hencode := encodeChar_eq c
  simp only [if_pos (Nat.le_of_lt_succ h)] at hencode
  rw [hencode]
  rfl

/-- No byte of a longer sequence is ASCII. -/
theorem le_of_mem_encodeChar (h : 0x80 ≤ c.toNat) (hb : b ∈ String.utf8EncodeChar c) :
    0x80 ≤ b.toNat := by
  rw [encodeChar_eq] at hb
  simp only [if_neg (Nat.not_le.mpr h)] at hb
  have hmem : ∀ {k : Nat} {ns : List Nat}, k < 256 → 0x80 ≤ k →
      b ∈ UInt8.ofNat k :: ns.map tailByte → 0x80 ≤ b.toNat := by
    intro k ns hk hle hb
    rcases List.mem_cons.mp hb with rfl | hb
    · rw [toNat_ofNat_byte hk]
      exact hle
    · obtain ⟨n, -, rfl⟩ := List.mem_map.mp hb
      rw [toNat_tailByte]
      exact Nat.le_add_left ..
  split at hb
  · exact hmem (by omega) (by omega) hb
  split at hb
  · exact hmem (by omega) (by omega) hb
  · exact hmem (by omega) (by omega) hb

@[simp] theorem encode_append (s t : String) : encode (s ++ t) = encode s ++ encode t := by
  simp [encode]

theorem encode_ascii {text : String} (h : ∀ c ∈ text.toList, c.toNat < 0x80) :
    encode text = text.toList.map Char.toUInt8 := by
  rw [encode, List.flatMap_def, List.map_congr_left fun c hc => encodeChar_ascii (h c hc),
    ← List.flatMap_def, List.map_eq_flatMap]

theorem toNat_toUInt8 (h : c.toNat < 0x80) : c.toUInt8.toNat = c.toNat := by
  rw [Char.toUInt8, UInt32.toNat_toUInt8]
  exact Nat.mod_eq_of_lt (Nat.lt_trans h (by decide))

theorem toUInt8_inj (hc : c.toNat < 0x80) (hd : d.toNat < 0x80) :
    c.toUInt8 = d.toUInt8 ↔ c = d := by
  rw [← UInt8.toNat_inj, toNat_toUInt8 hc, toNat_toUInt8 hd]
  exact Char.toNat_inj

theorem toUInt8_mem_encodeChar (h : c.toNat < 0x80) :
    c.toUInt8 ∈ String.utf8EncodeChar d ↔ c = d := by
  by_cases hd : d.toNat < 0x80
  · rw [encodeChar_ascii hd, List.mem_singleton, toUInt8_inj h hd]
  · constructor
    · intro hb
      have hle := le_of_mem_encodeChar (Nat.le_of_not_lt hd) hb
      rw [toNat_toUInt8 h] at hle
      omega
    · rintro rfl
      exact absurd h hd

theorem toUInt8_mem_encode {text : String} (h : c.toNat < 0x80) :
    c.toUInt8 ∈ encode text ↔ c ∈ text.toList := by
  simp [encode, toUInt8_mem_encodeChar h]

variable {low high : UInt8} {rest : Bytes}

theorem continuation_isPrefix (n : Nat) (low high : UInt8) (s : Bytes) :
    continuation n low high s <+: s := by
  fun_induction continuation n low high s with
  | case1 => exact List.nil_prefix
  | case2 => exact List.nil_prefix
  | case3 _ _ _ b s _ ih => exact (List.prefix_cons_inj b).mpr ih
  | case4 => exact List.nil_prefix

theorem continuation_append_ascii (hlow : 0x80 ≤ low.toNat) (hb : b.toNat < 0x80) :
    continuation n low high (s ++ b :: rest) = continuation n low high s := by
  fun_induction continuation n low high s with
  | case1 => rfl
  | case2 n low high =>
    rw [List.nil_append, continuation, if_neg]
    rintro ⟨hle, -⟩
    have := UInt8.le_iff_toNat_le.mp hle
    omega
  | case3 n low high c s hc ih => rw [List.cons_append, continuation, if_pos hc, ih (by decide)]
  | case4 n low high c s hc => rw [List.cons_append, continuation, if_neg hc]

theorem low_of_tail? {t : Tail} (h : tail? lead = some t) : 0x80 ≤ t.low.toNat := by
  unfold tail? at h
  repeat' split at h
  all_goals cases h
  all_goals decide

theorem readChar_append_ascii (lead : UInt8) (s : Bytes) (hb : b.toNat < 0x80) :
    readChar lead (s ++ b :: rest) = readChar lead s := by
  unfold readChar
  cases ht : tail? lead with
  | none => rfl
  | some t => simp only [continuation_append_ascii (low_of_tail? ht) hb]

theorem readChar_le_length (lead : UInt8) (s : Bytes) : (readChar lead s).2 ≤ s.length := by
  unfold readChar
  split
  · exact Nat.zero_le _
  split
  · exact Nat.zero_le _
  · exact (continuation_isPrefix ..).length_le

/-- An ASCII byte is a character of its own. -/
theorem scan_append_ascii (s : Bytes) (hb : b.toNat < 0x80) :
    scan (s ++ b :: rest) = scan s ++ some (Char.ofNat b.toNat) :: scan rest := by
  induction s using scan.induct with
  | case1 =>
    rw [List.nil_append, scan.eq_2, readChar_ascii hb, scan.eq_1]
    rfl
  | case2 lead s c n hread ih =>
    have hn : n ≤ s.length := by
      have := readChar_le_length lead s
      rwa [hread] at this
    rw [List.cons_append, scan, scan, readChar_append_ascii lead s hb, hread]
    simp only [List.drop_append_of_le_length hn, ih, List.cons_append]

theorem toList_decodeLossy_append_ascii (s : Bytes) (hb : b.toNat < 0x80) :
    (decodeLossy (s ++ b :: rest)).toList =
      (decodeLossy s).toList ++ Char.ofNat b.toNat :: (decodeLossy rest).toList := by
  simp [decodeLossy, scan_append_ascii s hb]

end MailSearch.Utf8
