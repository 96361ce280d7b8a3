import KnotHal.Nrf24.Pdu

/-!
# Addresses as text

`nrf24_str2mac` and `nrf24_mac2str`: eight `%02hhx` with colons between them, in `sscanf` and in `sprintf`.

* `scanHex` : one conversion of `sscanf`;
* `nrf24Str2mac`, `nrf24Mac2str` : the two functions;
* `scanHex_printHex`, `scanBytes_printBytes`, `str2mac_mac2str` : what is written is read back, by byte, after the
  first byte, and as a whole;
* `mac_text_lossless` : no two addresses have the same text.
-/

namespace KnotHal

/-- The bytes of a C string, without the terminator. -/
abbrev Text := List UInt8

namespace Nrf24

def isSpace (c : UInt8) : Bool := c = 0x20 ∨ 0x09 ≤ c ∧ c ≤ 0x0D

def hexValue (c : UInt8) : Option Nat :=
  let n := c.toNat
  if 0x30 ≤ n ∧ n ≤ 0x39 then some (n - 0x30)
  else if 0x41 ≤ n ∧ n ≤ 0x46 then some (n - 0x37)
  else if 0x61 ≤ n ∧ n ≤ 0x66 then some (n - 0x57)
  else none

/-- `%02hhx`: white space is skipped, and of what `strtoul` accepts in base 16 at most two characters are
taken. These are a sign and a digit, or one or two digits. ISO C has `0x` fail, which has no digit behind it;
older versions of glibc take it for 0. -/
def scanHex (str : Text) : Option (UInt8 × Text) :=
  match str.dropWhile isSpace with
  | [] => none
  | c :: rest =>
    if c = 0x2B ∨ c = 0x2D then
      match rest with
      | [] => none
      | d :: rest => (hexValue d).map fun v => (UInt8.ofNat (if c = 0x2D then 256 - v else v), rest)
    else
      match hexValue c, rest with
      | none, _ => none
      | some v, [] => some (UInt8.ofNat v, [])
      | some v, d :: rest =>
        match hexValue d with
        | some w => some (UInt8.ofNat (16 * v + w), rest)
        | none => if v = 0 ∧ (d = 0x58 ∨ d = 0x78) then none else some (UInt8.ofNat v, d :: rest)

/-- `n` conversions, each behind a colon. -/
def scanBytes : (n : Nat) → Text → Option (Buf n)
  | 0, _ => some ⟨[], rfl⟩
  | _ + 1, [] => none
  | n + 1, c :: str =>
    if c = 0x3A then do
      let (v, str) ← scanHex str
      let vs ← scanBytes n str
      return ⟨v :: vs.bytes, by simp⟩
    else none

/-- `nrf24_str2mac`, where all eight conversions succeed. -/
def nrf24Str2mac (str : Text) : Option Mac := do
  let (v, str) ← scanHex str
  let vs ← scanBytes 7 str
  return ⟨v :: vs.bytes, by simp⟩

def hexDigit (n : Nat) : UInt8 := if n < 10 then UInt8.ofNat (0x30 + n) else UInt8.ofNat (0x57 + n)

/-- `%02hhx` of `sprintf`. -/
def printHex (c : UInt8) : Text := [hexDigit (c.toNat / 16), hexDigit (c.toNat % 16)]

def nrf24Mac2str (mac : Mac) : Text := [0x3A].intercalate (mac.bytes.map printHex)

/-! ## Reading back what was written -/

theorem hexValue_hexDigit : ∀ n < 16, hexValue (hexDigit n) = some n := by decide

theorem hexDigit_plain : ∀ n < 16, isSpace (hexDigit n) = false ∧ ¬ (hexDigit n = 0x2B ∨ hexDigit n = 0x2D) := by
  decide

theorem hexDigit_ne_zero : ∀ n < 16, hexDigit n ≠ 0 := by decide

theorem scanHex_printHex (c : UInt8) (rest : Text) : scanHex (printHex c ++ rest) = some (c, rest) := by
  have hc := c.toNat_lt
  have hhigh : c.toNat / 16 < 16 := by omega
  have hlow : c.toNat % 16 < 16 := Nat.mod_lt _ (by decide)
  obtain ⟨hspace, hsign⟩ := hexDigit_plain _ hhigh
  have hskip : (printHex c ++ rest).dropWhile isSpace = printHex c ++ rest :=
    List.dropWhile_cons_of_neg (by rw [hspace]; decide)
  have hvalue : 16 * (c.toNat / 16) + c.toNat % 16 = c.toNat := Nat.div_add_mod ..
  unfold scanHex
  rw [hskip]
  simp only [printHex, List.cons_append, List.nil_append, hexValue_hexDigit _ hhigh, hexValue_hexDigit _ hlow]
  rw [if_neg hsign, hvalue, UInt8.ofNat_toNat]

/-- The bytes after the first one, each behind a colon. -/
def printBytes (bytes : List UInt8) : Text := bytes.flatMap fun c => 0x3A :: printHex c

theorem printBytes_cons (c : UInt8) (bytes : List UInt8) :
    printBytes (c :: bytes) = 0x3A :: (printHex c ++ printBytes bytes) := List.flatMap_cons ..

theorem intercalate_printHex (c : UInt8) (bytes : List UInt8) :
    List.intercalate [0x3A] ((c :: bytes).map printHex) = printHex c ++ printBytes bytes := by
  induction bytes generalizing c with
  | nil => simp [printBytes]
  | cons d bytes ih =>
      rw [printBytes_cons, ← ih d]
      rfl

theorem scanBytes_printBytes {n : Nat} (buf : Buf n) : scanBytes n (printBytes buf.bytes) = some buf := by
  obtain ⟨bytes, hlen⟩ := buf
  induction bytes generalizing n with
  | nil =>
      obtain rfl : n = 0 := hlen.symm
      rfl
  | cons c bytes ih =>
      obtain rfl : n = bytes.length + 1 := hlen.symm
      have hrest : scanBytes bytes.length (printBytes bytes) = some ⟨bytes, rfl⟩ := ih rfl
      rw [printBytes_cons, scanBytes, if_pos rfl, scanHex_printHex]
      show (do
        let vs ← scanBytes bytes.length (printBytes bytes)
        return _ : Option (Buf (bytes.length + 1))) = _
      rw [hrest]
      rfl

/-- `nrf24_str2mac` reads what `nrf24_mac2str` writes. -/
theorem str2mac_mac2str (mac : Mac) : nrf24Str2mac (nrf24Mac2str mac) = some mac := by
  obtain ⟨bytes, hlen⟩ := mac
  cases bytes with
  | nil => cases hlen
  | cons c bytes =>
      have hseven : bytes.length = 7 := Nat.succ.inj hlen
      have hrest : scanBytes 7 (printBytes bytes) = some ⟨bytes, hseven⟩ := scanBytes_printBytes ⟨bytes, hseven⟩
      unfold nrf24Str2mac nrf24Mac2str
      rw [intercalate_printHex, scanHex_printHex]
      show (do
        let vs ← scanBytes 7 (printBytes bytes)
        return _ : Option Mac) = _
      rw [hrest]
      rfl

theorem length_printBytes (bytes : List UInt8) : (printBytes bytes).length = 3 * bytes.length := by
  induction bytes with
  | nil => rfl
  | cons c bytes ih =>
      rw [printBytes_cons, List.length_cons, List.length_append, ih, List.length_cons]
      show 2 + 3 * bytes.length + 1 = _
      omega

theorem zero_not_mem_printHex (c : UInt8) : 0 ∉ printHex c := by
  have hc := c.toNat_lt
  intro hmem
  rcases List.mem_cons.mp hmem with h | h
  · exact hexDigit_ne_zero (c.toNat / 16) (by omega) h.symm
  · exact hexDigit_ne_zero (c.toNat % 16) (by omega) (List.mem_singleton.mp h).symm

theorem zero_not_mem_printBytes (bytes : List UInt8) : 0 ∉ printBytes bytes := by
  induction bytes with
  | nil => exact List.not_mem_nil
  | cons c bytes ih =>
      rw [printBytes_cons]
      intro hmem
      rcases List.mem_cons.mp hmem with h | h
      · cases h
      · rcases List.mem_append.mp h with h | h
        · exact zero_not_mem_printHex c h
        · exact ih h

theorem length_mac2str (mac : Mac) : (nrf24Mac2str mac).length = 23 := by
  obtain ⟨bytes, hlen⟩ := mac
  cases bytes with
  | nil => cases hlen
  | cons c bytes =>
      have hseven : bytes.length = 7 := Nat.succ.inj hlen
      rw [nrf24Mac2str, intercalate_printHex, List.length_append, length_printBytes, hseven]
      rfl

theorem zero_not_mem_mac2str (mac : Mac) : 0 ∉ nrf24Mac2str mac := by
  obtain ⟨bytes, hlen⟩ := mac
  cases bytes with
  | nil => cases hlen
  | cons c bytes =>
      rw [nrf24Mac2str, intercalate_printHex]
      intro hmem
      rcases List.mem_append.mp hmem with h | h
      · exact zero_not_mem_printHex c h
      · exact zero_not_mem_printBytes bytes h

/-- An address is written as 23 characters and read back as the same address, so that no two addresses have the same
text. -/
theorem mac_text_lossless (mac : Mac) :
    (nrf24Mac2str mac).length = 23 ∧ 0 ∉ nrf24Mac2str mac ∧ nrf24Str2mac (nrf24Mac2str mac) = some mac ∧
      ∀ mac', nrf24Mac2str mac' = nrf24Mac2str mac → mac' = mac := by
  refine ⟨length_mac2str mac, zero_not_mem_mac2str mac, str2mac_mac2str mac, fun mac' h => ?_⟩
  have hread := str2mac_mac2str mac'
  rw [h, str2mac_mac2str] at hread
  exact (Option.some.inj hread).symm

end Nrf24

end KnotHal
