import Mathlib.Data.List.Lex
import Mathlib.Data.List.DropRight
import Mathlib.Data.UInt

/-!
# Byte strings, their runes and their decimal numerals

A string is a list of bytes and need not be well-formed UTF-8. Ranging over a
string decodes it left to right: each ill-formed byte yields the replacement
rune with width one. Nothing below names the program that uses it.
-/

namespace ForgeFlow.Base

variable {c b : UInt8} {s : GoString}

/-- Bytes are ordered by their value, so strings are ordered bytewise. -/
instance instLinearOrderUInt8 : LinearOrder UInt8 where
  le_refl _ := UInt8.le_refl _
  le_trans _ _ _ := UInt8.le_trans
  le_antisymm _ _ := UInt8.le_antisymm
  le_total := UInt8.le_total
  lt_iff_le_not_ge a b := by
    rw [UInt8.lt_iff_toNat_lt, UInt8.le_iff_toNat_le, UInt8.le_iff_toNat_le]
    omega
  toDecidableLE := inferInstance
  toDecidableLT := inferInstance
  toDecidableEq := inferInstance

abbrev GoString := List UInt8

/-- The bytes of an ASCII literal. -/
def ascii (s : String) : GoString := s.toList.map fun c => UInt8.ofNat c.toNat

/-- U+FFFD, the rune an ill-formed byte decodes to. -/
def runeError : Nat := 0xFFFD

/-- What a byte of value at least 0x80 announces about the bytes after it. -/
inductive Lead where
  | invalid
  | two
  | three (lo hi : UInt8)
  | four (lo hi : UInt8)

def lead (b : UInt8) : Lead :=
  if 0xC2 ≤ b ∧ b ≤ 0xDF then .two
  else if b = 0xE0 then .three 0xA0 0xBF
  else if b = 0xED then .three 0x80 0x9F
  else if 0xE1 ≤ b ∧ b ≤ 0xEF then .three 0x80 0xBF
  else if b = 0xF0 then .four 0x90 0xBF
  else if 0xF1 ≤ b ∧ b ≤ 0xF3 then .four 0x80 0xBF
  else if b = 0xF4 then .four 0x80 0x8F
  else .invalid

/-- A continuation byte within the bounds its lead byte allows. Both lower
bounds in use are at least 0x80. -/
def continues (lo hi b : UInt8) : Bool := 0x80 ≤ b && lo ≤ b && b ≤ hi

def low6 (b : UInt8) : Nat := b.toNat % 64

/-- The first rune of a string and its width in bytes. -/
def decodeRune : GoString → Nat × Nat
  | [] => (runeError, 0)
  | b0 :: rest =>
    if b0 < 0x80 then (b0.toNat, 1)
    else match lead b0, rest with
      | .two, b1 :: _ =>
        if continues 0x80 0xBF b1 then (b0.toNat % 32 * 64 + low6 b1, 2) else (runeError, 1)
      | .three lo hi, b1 :: b2 :: _ =>
        if continues lo hi b1 && continues 0x80 0xBF b2 then
          (b0.toNat % 16 * 4096 + low6 b1 * 64 + low6 b2, 3)
        else (runeError, 1)
      | .four lo hi, b1 :: b2 :: b3 :: _ =>
        if continues lo hi b1 && continues 0x80 0xBF b2 && continues 0x80 0xBF b3 then
          (b0.toNat % 8 * 262144 + low6 b1 * 4096 + low6 b2 * 64 + low6 b3, 4)
        else (runeError, 1)
      | _, _ => (runeError, 1)

/-- The runes of a string with the bytes they came from; `skip` bytes at the
front belong to a rune that is already listed. -/
def chunksFrom : Nat → GoString → List (Nat × GoString)
  | _, [] => []
  | skip + 1, _ :: rest => chunksFrom skip rest
  | 0, b :: rest =>
    let d := decodeRune (b :: rest)
    (d.1, (b :: rest).take d.2) :: chunksFrom (d.2 - 1) rest

def chunks (s : GoString) : List (Nat × GoString) := chunksFrom 0 s

def runes (s : GoString) : List Nat := (chunks s).map Prod.fst

def isSpace (r : Nat) : Bool :=
  (9 ≤ r && r ≤ 13) || r == 0x20 || r == 0x85 || r == 0xA0 || r == 0x1680 ||
    (0x2000 ≤ r && r ≤ 0x200A) || r == 0x2028 || r == 0x2029 || r == 0x202F ||
    r == 0x205F || r == 0x3000

def isControl (r : Nat) : Bool := r ≤ 0x1F || (0x7F ≤ r && r ≤ 0x9F)

/-- Cut the space runes off both ends. -/
def trimSpace (s : GoString) : GoString :=
  let space : Nat × GoString → Bool := fun c => isSpace c.1
  (((chunks s).dropWhile space).rdropWhile space).flatMap Prod.snd

/-- A chunk that stands for one ill-formed byte. -/
def illFormed (c : Nat × GoString) : Bool := c.1 == runeError && c.2.length == 1

def validUTF8 (s : GoString) : Bool := (chunks s).all fun c => !illFormed c

/-- Each ill-formed byte replaced by the encoding of U+FFFD. -/
def toValidUTF8 (s : GoString) : GoString :=
  (chunks s).flatMap fun c => if illFormed c then [0xEF, 0xBF, 0xBD] else c.2

/-- Non-empty and free of space and control runes. -/
def plainIdentifier (s : GoString) : Bool :=
  !s.isEmpty && (runes s).all fun r => !(isSpace r || isControl r)

def formatNat (n : Nat) : GoString := (Nat.toDigits 10 n).map fun c => UInt8.ofNat c.toNat

def formatInt (n : Int) : GoString :=
  if n < 0 then 0x2D :: formatNat n.natAbs else formatNat n.toNat

def hexDigit (n : Nat) : UInt8 := UInt8.ofNat (if n < 10 then 0x30 + n else 0x57 + n)

/-- The `width` low hexadecimal digits of `n`. -/
def formatHex : Nat → Nat → GoString
  | 0, _ => []
  | width + 1, n => formatHex width (n / 16) ++ [hexDigit (n % 16)]

/-- Which runes a quoted string shows as themselves. Above Latin-1 every rune
counts as printable: the category tables are not part of this model. -/
def isPrint (r : Nat) : Bool := (0x20 ≤ r && r < 0x7F) || (0xA1 ≤ r && r != 0xAD)

def quoteChunk (c : Nat × GoString) : GoString :=
  if illFormed c then ascii "\\x" ++ c.2.flatMap fun b => formatHex 2 b.toNat
  else if c.1 == 0x22 || c.1 == 0x5C then 0x5C :: c.2
  else if isPrint c.1 then c.2
  else if c.1 == 7 then ascii "\\a"
  else if c.1 == 8 then ascii "\\b"
  else if c.1 == 9 then ascii "\\t"
  else if c.1 == 10 then ascii "\\n"
  else if c.1 == 11 then ascii "\\v"
  else if c.1 == 12 then ascii "\\f"
  else if c.1 == 13 then ascii "\\r"
  else if c.1 < 0x20 || c.1 == 0x7F then ascii "\\x" ++ formatHex 2 c.1
  else if c.1 < 0x10000 then ascii "\\u" ++ formatHex 4 c.1
  else ascii "\\U" ++ formatHex 8 c.1

/-- The double-quoted form of a string. -/
def quote (s : GoString) : GoString := 0x22 :: (chunks s).flatMap quoteChunk ++ [0x22]

theorem not_continues_of_ascii {lo hi : UInt8} (hc : c < 0x80) : continues lo hi c = false := by
  have h : ¬ (0x80 : UInt8) ≤ c := UInt8.not_le.mpr hc
  simp [continues, h]

/-- An ASCII byte behind a non-empty string does not change its first rune. -/
theorem decodeRune_append (t : GoString) (hs : s ≠ [])
    (hc : c < 0x80) : decodeRune (s ++ c :: t) = decodeRune s := by
  have hn : ∀ lo hi, continues lo hi c = false := fun lo hi => not_continues_of_ascii hc
  match s, hs with
  | [b0], _ =>
    simp only [List.cons_append, List.nil_append, decodeRune]
    split
    · rfl
    · cases lead b0 with
      | invalid => rfl
      | two => simp [hn]
      | three lo hi => cases t <;> simp [hn]
      | four lo hi => rcases t with _ | ⟨t0, _ | ⟨t1, t⟩⟩ <;> simp [hn]
  | [b0, b1], _ =>
    simp only [List.cons_append, List.nil_append, decodeRune]
    split
    · rfl
    · cases lead b0 with
      | invalid => rfl
      | two => rfl
      | three lo hi => simp [hn]
      | four lo hi => cases t <;> simp [hn]
  | [b0, b1, b2], _ =>
    simp only [List.cons_append, List.nil_append, decodeRune]
    split
    · rfl
    · cases lead b0 with
      | invalid => rfl
      | two => rfl
      | three lo hi => rfl
      | four lo hi => simp [hn]
  | b0 :: b1 :: b2 :: b3 :: s, _ =>
    simp only [List.cons_append, decodeRune]
    split
    · rfl
    · cases lead b0 <;> rfl

theorem decodeRune_width_le (b : UInt8) (s : GoString) :
    (decodeRune (b :: s)).2 ≤ s.length + 1 := by
  simp only [decodeRune]
  split
  · simp
  · split
    · split <;> simp
    · split <;> simp
    · split <;> simp
    · simp

theorem decodeRune_width_pos (b : UInt8) (s : GoString) : 0 < (decodeRune (b :: s)).2 := by
  simp only [decodeRune]
  split
  · simp
  · split
    · split <;> simp
    · split <;> simp
    · split <;> simp
    · simp

theorem chunksFrom_append (t : GoString) (hc : c < 0x80) :
    ∀ (s : GoString) (skip : Nat), skip ≤ s.length →
      chunksFrom skip (s ++ c :: t) = chunksFrom skip s ++ chunks (c :: t)
  | [], skip, h => by
    have h0 : skip = 0 := by simpa using h
    subst h0
    rfl
  | b :: s, skip + 1, h => by
    have ih := chunksFrom_append t hc s skip (by simpa using h)
    simpa only [List.cons_append, chunksFrom] using ih
  | b :: s, 0, _ => by
    have hd := decodeRune_append (s := b :: s) t (by simp) hc
    have hw := decodeRune_width_le b s
    rw [List.cons_append] at hd
    simp only [List.cons_append, chunksFrom, hd]
    have ht : (b :: (s ++ c :: t)).take (decodeRune (b :: s)).2 =
        (b :: s).take (decodeRune (b :: s)).2 := by
      rw [← List.cons_append, List.take_append_of_le_length (by simpa using hw)]
    rw [chunksFrom_append t hc s _ (by omega), ht]

/-- Decoding splits in front of an ASCII byte. -/
theorem chunks_append_ascii (s t : GoString) (hc : c < 0x80) :
    chunks (s ++ c :: t) = chunks s ++ (c.toNat, [c]) :: chunks t := by
  have h := chunksFrom_append t hc s 0 (Nat.zero_le _)
  have hd : decodeRune (c :: t) = (c.toNat, 1) := by simp [decodeRune, hc]
  unfold chunks at h ⊢
  rw [h]
  simp [chunksFrom, hd]

theorem runes_append_ascii (s t : GoString) (hc : c < 0x80) :
    runes (s ++ c :: t) = runes s ++ c.toNat :: runes t := by
  simp [runes, chunks_append_ascii s t hc]

theorem runes_ascii : ∀ {s : GoString}, (∀ b ∈ s, b < 0x80) → runes s = s.map UInt8.toNat
  | [], _ => rfl
  | b :: s, h => by
    have hb : b < 0x80 := h b (by simp)
    have hs : ∀ c ∈ s, c < 0x80 := fun c hc => h c (by simp [hc])
    have ha := runes_append_ascii [] s hb
    rw [List.nil_append] at ha
    rw [ha, runes_ascii hs]
    rfl

theorem toNat_digit {c : Char} (h : c.isDigit = true) :
    48 ≤ c.toNat ∧ c.toNat ≤ 57 := by
  simp only [Char.isDigit, Bool.and_eq_true, decide_eq_true_eq, ge_iff_le,
    UInt32.le_iff_toNat_le] at h
  exact h

theorem formatNat_digit {n : Nat} (h : b ∈ formatNat n) :
    48 ≤ b.toNat ∧ b.toNat ≤ 57 := by
  obtain ⟨c, hc, rfl⟩ := List.mem_map.mp h
  have hd := toNat_digit (Nat.isDigit_of_mem_toDigits (by decide) (by decide) hc)
  have hm : (UInt8.ofNat c.toNat).toNat = c.toNat := by
    simp only [UInt8.toNat_ofNat']
    omega
  omega

theorem formatNat_injective : Function.Injective formatNat := by
  intro m n h
  have hback : ∀ k, (formatNat k).map (fun b => Char.ofNat b.toNat) = Nat.toDigits 10 k := by
    intro k
    rw [formatNat, List.map_map]
    conv_rhs => rw [← List.map_id (Nat.toDigits 10 k)]
    apply List.map_congr_left
    intro c hc
    have hd := toNat_digit (Nat.isDigit_of_mem_toDigits (by decide) (by decide) hc)
    have hm : (UInt8.ofNat c.toNat).toNat = c.toNat := by
      simp only [UInt8.toNat_ofNat']
      omega
    simp [hm]
  have hd : Nat.toDigits 10 m = Nat.toDigits 10 n := by rw [← hback m, ← hback n, h]
  have hv := congrArg (fun l => Nat.ofDigitChars 10 l 0) hd
  simpa only [Nat.ofDigitChars_ten_toDigits] using hv

theorem formatInt_byte {n : Int} (h : b ∈ formatInt n) :
    b = 0x2D ∨ 48 ≤ b.toNat ∧ b.toNat ≤ 57 := by
  unfold formatInt at h
  split at h
  · rcases List.mem_cons.mp h with rfl | h
    · exact .inl rfl
    · exact .inr (formatNat_digit h)
  · exact .inr (formatNat_digit h)

theorem formatInt_injective : Function.Injective formatInt := by
  have hsign : ∀ m n, (0x2D : UInt8) :: formatNat m ≠ formatNat n := by
    intro m n h
    have hd := formatNat_digit (n := n) (b := 0x2D) (by rw [← h]; simp)
    exact absurd hd (by decide)
  intro m n h
  unfold formatInt at h
  split at h <;> split at h
  · have := formatNat_injective (List.cons.inj h).2
    omega
  · exact absurd h (hsign _ _)
  · exact absurd h.symm (hsign _ _)
  · have := formatNat_injective h
    omega

/-- Text before the first separator is determined, when it holds no separator. -/
theorem sep_append_inj : ∀ {s s' t t' : GoString}, c ∉ s → c ∉ s' →
    s ++ c :: t = s' ++ c :: t' → s = s' ∧ t = t'
  | [], [], t, t', _, _, h => by simpa using h
  | [], b :: s', t, t', _, hs', h => by
    obtain ⟨rfl, _⟩ := List.cons.inj h
    exact absurd List.mem_cons_self hs'
  | b :: s, [], t, t', hs, _, h => by
    obtain ⟨rfl, _⟩ := List.cons.inj h
    exact absurd List.mem_cons_self hs
  | b :: s, b' :: s', t, t', hs, hs', h => by
    obtain ⟨rfl, htail⟩ := List.cons.inj h
    obtain ⟨rfl, rfl⟩ := sep_append_inj (fun hc => hs (List.mem_cons_of_mem _ hc))
      (fun hc => hs' (List.mem_cons_of_mem _ hc)) htail
    exact ⟨rfl, rfl⟩

/-- Text after the last separator is determined, when it holds no separator. -/
theorem append_sep_inj {s' t t' : GoString} (ht : c ∉ t) (ht' : c ∉ t')
    (h : s ++ c :: t = s' ++ c :: t') : s = s' ∧ t = t' := by
  have hrev := congrArg List.reverse h
  simp only [List.reverse_append, List.reverse_cons, List.append_assoc,
    List.singleton_append] at hrev
  have hinj := sep_append_inj (by simpa using ht) (by simpa using ht') hrev
  simpa [and_comm] using hinj

/-! An identifier put together at ASCII separators is plain when its parts are. -/

def plainRune (r : Nat) : Bool := !(isSpace r || isControl r)

theorem plainIdentifier_eq (s : GoString) :
    plainIdentifier s = (!s.isEmpty && (runes s).all plainRune) := rfl

theorem all_runes_append_ascii (p : Nat → Bool) (s t : GoString) (hc : c < 0x80) :
    (runes (s ++ c :: t)).all p = ((runes s).all p && (p c.toNat && (runes t).all p)) := by
  simp [runes_append_ascii s t hc]

theorem plainRune_of_printable (hlow : 0x20 < c) (hhigh : c < 0x7F) :
    plainRune c.toNat = true := by
  have h1 : (0x20 : UInt8).toNat < c.toNat := UInt8.lt_iff_toNat_lt.mp hlow
  have h2 : c.toNat < (0x7F : UInt8).toNat := UInt8.lt_iff_toNat_lt.mp hhigh
  have h3 : (0x20 : UInt8).toNat = 32 := rfl
  have h4 : (0x7F : UInt8).toNat = 127 := rfl
  simp only [plainRune, isSpace, isControl]
  simp
  omega

theorem all_plainRune_of_printable (h : ∀ b ∈ s, 0x20 < b ∧ b < 0x7F) :
    (runes s).all plainRune = true := by
  have hascii : ∀ b ∈ s, b < 0x80 := fun b hb => lt_trans (h b hb).2 (by decide)
  rw [runes_ascii hascii, List.all_map, List.all_eq_true]
  intro b hb
  exact plainRune_of_printable (h b hb).1 (h b hb).2

theorem formatInt_printable {n : Int} (h : b ∈ formatInt n) : 0x20 < b ∧ b < 0x7F := by
  rw [UInt8.lt_iff_toNat_lt, UInt8.lt_iff_toNat_lt]
  have h3 : (0x20 : UInt8).toNat = 32 := rfl
  have h4 : (0x7F : UInt8).toNat = 127 := rfl
  rcases formatInt_byte h with rfl | hb
  · decide
  · omega

/-! A string whose bytes all decode is its own valid form. -/

theorem flatMap_chunksFrom : ∀ (s : GoString) (skip : Nat), skip ≤ s.length →
    (chunksFrom skip s).flatMap Prod.snd = s.drop skip
  | [], skip, _ => by simp [chunksFrom]
  | b :: s, skip + 1, h => by
    simpa only [chunksFrom, List.drop_succ_cons] using flatMap_chunksFrom s skip (by simpa using h)
  | b :: s, 0, _ => by
    have hw := decodeRune_width_le b s
    have hpos := decodeRune_width_pos b s
    obtain ⟨n, hn⟩ : ∃ n, (decodeRune (b :: s)).2 = n + 1 := ⟨_, (Nat.sub_add_cancel hpos).symm⟩
    rw [hn] at hw
    simp only [chunksFrom, List.flatMap_cons, hn, Nat.add_sub_cancel, List.drop_zero]
    rw [flatMap_chunksFrom s n (by omega), List.take_succ_cons, List.cons_append,
      List.take_append_drop]

theorem toValidUTF8_of_valid (h : validUTF8 s = true) : toValidUTF8 s = s := by
  have hall : ∀ c ∈ chunks s, (if illFormed c then [0xEF, 0xBF, 0xBD] else c.2) = c.2 := by
    intro c hc
    have := List.all_eq_true.mp h c hc
    simp only [Bool.not_eq_true'] at this
    simp [this]
  rw [toValidUTF8, List.flatMap_congr hall]
  exact flatMap_chunksFrom s 0 (Nat.zero_le _)

theorem validUTF8_append_ascii (s t : GoString) (hc : c < 0x80) :
    validUTF8 (s ++ c :: t) = (validUTF8 s && validUTF8 t) := by
  have hwell : illFormed (c.toNat, [c]) = false := by
    have hlt : c.toNat < 128 := UInt8.lt_iff_toNat_lt.mp hc
    simp only [illFormed, runeError, Bool.and_eq_false_imp, beq_iff_eq]
    omega
  simp [validUTF8, chunks_append_ascii s t hc, hwell]

theorem validUTF8_ascii : ∀ {s : GoString}, (∀ b ∈ s, b < 0x80) → validUTF8 s = true
  | [], _ => rfl
  | b :: s, h => by
    have hs : validUTF8 s = true := validUTF8_ascii fun c hc => h c (by simp [hc])
    have ha := validUTF8_append_ascii [] s (h b (by simp))
    rw [List.nil_append] at ha
    rw [ha, hs]
    rfl

/-! The valid form of a string is valid. -/

/-- A well-formed first rune is decoded from its own bytes, whatever comes after them. -/
theorem decodeRune_take_append (b : UInt8) (s t : GoString)
    (h : illFormed ((decodeRune (b :: s)).1, (b :: s).take (decodeRune (b :: s)).2) = false) :
    decodeRune ((b :: s).take (decodeRune (b :: s)).2 ++ t) = decodeRune (b :: s) := by
  simp only [decodeRune] at h ⊢
  by_cases hascii : b < 0x80
  · simp [hascii]
  · simp only [hascii, if_false] at h ⊢
    cases hlead : lead b with
    | invalid => simp [hlead, illFormed, runeError] at h
    | two =>
      rcases s with _ | ⟨b1, s⟩
      · simp [hlead, illFormed, runeError] at h
      · by_cases hc : continues 0x80 0xBF b1 = true
        · simp [hlead, hc, hascii]
        · simp [hlead, hc, illFormed, runeError] at h
    | three lo hi =>
      rcases s with _ | ⟨b1, _ | ⟨b2, s⟩⟩
      · simp [hlead, illFormed, runeError] at h
      · simp [hlead, illFormed, runeError] at h
      · by_cases hc : (continues lo hi b1 && continues 0x80 0xBF b2) = true
        · simp [hlead, hc, hascii]
        · simp [hlead, hc, illFormed, runeError] at h
    | four lo hi =>
      rcases s with _ | ⟨b1, _ | ⟨b2, _ | ⟨b3, s⟩⟩⟩
      · simp [hlead, illFormed, runeError] at h
      · simp [hlead, illFormed, runeError] at h
      · simp [hlead, illFormed, runeError] at h
      · by_cases hc : (continues lo hi b1 && continues 0x80 0xBF b2 &&
            continues 0x80 0xBF b3) = true
        · simp [hlead, hc, hascii]
        · simp [hlead, hc, illFormed, runeError] at h

theorem chunksFrom_length_append : ∀ (s t : GoString), chunksFrom s.length (s ++ t) = chunks t
  | [], _ => rfl
  | _ :: s, t => chunksFrom_length_append s t

/-- The first rune of a string and the bytes behind it. -/
theorem chunks_of_decodeRune {t : GoString} {r : Nat}
    (h : decodeRune (b :: s ++ t) = (r, s.length + 1)) :
    chunks (b :: s ++ t) = (r, b :: s) :: chunks t := by
  rw [List.cons_append] at h ⊢
  simp [chunks, chunksFrom, h]
  exact chunksFrom_length_append s t

theorem validUTF8_replacement (t : GoString) :
    validUTF8 ([0xEF, 0xBF, 0xBD] ++ t) = validUTF8 t := by
  have hd : decodeRune ([0xEF, 0xBF, 0xBD] ++ t) = (runeError, 3) := rfl
  rw [validUTF8, chunks_of_decodeRune hd]
  rfl

/-- Whatever the string, its valid form is well-formed. -/
theorem validUTF8_chunksFrom : ∀ (s : GoString) (skip : Nat),
    validUTF8 ((chunksFrom skip s).flatMap fun c =>
      if illFormed c then [0xEF, 0xBF, 0xBD] else c.2) = true
  | [], _ => by simp [chunksFrom, validUTF8, chunks]
  | _ :: s, skip + 1 => validUTF8_chunksFrom s skip
  | b :: s, 0 => by
    have ih := validUTF8_chunksFrom s ((decodeRune (b :: s)).2 - 1)
    simp only [chunksFrom, List.flatMap_cons]
    cases hill : illFormed ((decodeRune (b :: s)).1, (b :: s).take (decodeRune (b :: s)).2) with
    | true =>
      rw [if_pos rfl, validUTF8_replacement]
      exact ih
    | false =>
      rw [if_neg (by decide)]
      have hd := decodeRune_take_append b s ((chunksFrom ((decodeRune (b :: s)).2 - 1) s).flatMap
        fun c => if illFormed c then [0xEF, 0xBF, 0xBD] else c.2) hill
      have hle := decodeRune_width_le b s
      obtain ⟨n, hn⟩ : ∃ n, (decodeRune (b :: s)).2 = n + 1 :=
        ⟨_, (Nat.sub_add_cancel (decodeRune_width_pos b s)).symm⟩
      rw [hn, List.take_succ_cons] at hd hill
      have hwidth : decodeRune (b :: s) = ((decodeRune (b :: s)).1, (s.take n).length + 1) := by
        rw [List.length_take_of_le (by omega), ← hn]
      rw [hn, List.take_succ_cons, validUTF8, chunks_of_decodeRune (hd.trans hwidth)]
      simp only [List.all_cons, hill]
      rw [hn] at ih
      exact ih

theorem validUTF8_toValidUTF8 (s : GoString) : validUTF8 (toValidUTF8 s) = true :=
  validUTF8_chunksFrom s 0

theorem toValidUTF8_eq_self_iff (s : GoString) : toValidUTF8 s = s ↔ validUTF8 s = true :=
  ⟨fun h => h ▸ validUTF8_toValidUTF8 s, toValidUTF8_of_valid⟩

end ForgeFlow.Base
