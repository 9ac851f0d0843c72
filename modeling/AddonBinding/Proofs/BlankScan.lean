import AddonBinding.Proofs.FunctionCalls
import AddonBinding.Source.Helper

namespace AddonBinding

namespace Source

namespace Helper

open Program

variable {p : Program}

section Characters

-- The first bits of a character and its number of bytes, by the first byte. Nothing is said about
-- characters of four bytes.
def leadBits (lead : Nat) : Option (Nat × Nat) :=
  if lead < 0x80 then some (lead, 1)
  else if lead >>> 5 = 0x6 then some (lead &&& 0x1f, 2)
  else if lead >>> 4 = 0xe then some (lead &&& 0x0f, 3)
  else none

-- A further byte has six more bits.
def moreBits (bits : Nat) (b : UInt8) : Nat :=
  bits * 64 + b.toNat % 64

theorem leadBits_eq (lead : Nat) : leadBits lead =
    if lead < 128 then some (lead, 1)
    else if lead / 32 = 6 then some (lead % 32, 2)
    else if lead / 16 = 14 then some (lead % 16, 3)
    else none := by
  have h₃₁ : lead &&& 31 = lead % 32 := Nat.and_two_pow_sub_one_eq_mod lead 5
  have h₁₅ : lead &&& 15 = lead % 16 := Nat.and_two_pow_sub_one_eq_mod lead 4
  simp only [leadBits, h₃₁, h₁₅, Nat.shiftRight_eq_div_pow, Nat.reducePow]

theorem toNat_ofNat_of_lt {n : Nat} (h : n < 256) : (UInt8.ofNat n).toNat = n := by
  rw [UInt8.toNat_ofNat', Nat.mod_eq_of_lt h]

-- The bits of a character make it up, unless it has four bytes. The bound keeps them in a word.
theorem utf8EncodeChar_cases (c : Char) :
    ∃ lead more, String.utf8EncodeChar c = lead :: more ∧
      ((∃ bits, leadBits lead.toNat = some (bits, more.length + 1) ∧
        (bits + 1) * 64 ^ more.length ≤ pow2 32 ∧ more.foldl moreBits bits = c.toNat) ∨
      leadBits lead.toNat = none ∧ 0x10000 ≤ c.toNat) := by
  have hc : c.toNat < 0x110000 := by
    have := c.valid
    simp only [UInt32.isValidChar, Nat.isValidChar, Char.toNat_val] at this
    omega
  simp only [String.utf8EncodeChar, Char.toNat_val]
  generalize c.toNat = n at hc
  have h₃₂ : pow2 32 = 4294967296 := rfl
  split
  · refine ⟨_, _, rfl, .inl ⟨n, ?_, ?_, ?_⟩⟩
    · rw [toNat_ofNat_of_lt (by omega), leadBits_eq, if_pos (by omega)]
      rfl
    · simp only [List.length_nil]
      omega
    · rfl
  split
  · refine ⟨_, _, rfl, .inl ⟨n / 64, ?_, ?_, ?_⟩⟩
    · rw [toNat_ofNat_of_lt (by omega), leadBits_eq, if_neg (by omega), if_pos (by omega)]
      simp only [List.length_singleton, Option.some.injEq, Prod.mk.injEq, and_true]
      omega
    · simp only [List.length_singleton]
      omega
    · simp only [List.foldl, moreBits, toNat_ofNat_of_lt (show n % 64 + 128 < 256 by omega)]
      omega
  split
  · refine ⟨_, _, rfl, .inl ⟨n / 4096, ?_, ?_, ?_⟩⟩
    · rw [toNat_ofNat_of_lt (by omega), leadBits_eq, if_neg (by omega), if_neg (by omega),
        if_pos (by omega)]
      simp only [List.length_cons, List.length_nil, Option.some.injEq, Prod.mk.injEq, and_true]
      omega
    · simp only [List.length_cons, List.length_nil]
      omega
    · simp only [List.foldl, moreBits, toNat_ofNat_of_lt (show n % 64 + 128 < 256 by omega),
        toNat_ofNat_of_lt (show n / 64 % 64 + 128 < 256 by omega)]
      omega
  · refine ⟨_, _, rfl, .inr ⟨?_, ?_⟩⟩
    · rw [toNat_ofNat_of_lt (by omega), leadBits_eq, if_neg (by omega), if_neg (by omega),
        if_neg (by omega)]
    · omega

end Characters

section Scan

-- The parts of the loop over the bytes.
def byteAt (position : Expr) : Expr :=
  .cast .byte (.index (.name "text") position)

def textSize : Expr :=
  (Expr.name "text").method "size"

def inText : Expr :=
  .binary .less (.name "i") textSize

def joined : Expr :=
  .binary .bitOr (.parens (.binary .shiftLeft (.name "cp") (.natural 6)))
    (.parens (.binary .bitAnd (byteAt (.binary .add (.name "i") (.name "j"))) (.hex 2 0x3f)))

def scanCharacter : List Stmt :=
  [.declare true .byte "lead" (some (byteAt (.name "i"))),
    .declare false (.word false 32) "cp" none,
    .declare false .size "len" none,
    leadChoice,
    .when (.binary .greater (.binary .add (.name "i") (.name "len")) textSize) fail,
    .count .size "j" (.natural 1) (.name "len") [.assign (.name "cp") joined],
    .select (.name "cp") (Text.hostBlanks.map Char.toNat) [.exitSwitch] fail,
    .addAssign (.name "i") (.name "len")]

theorem isBlankBody_eq : isBlankBody =
    [.declare false .size "i" (some (.natural 0)), .loop inText scanCharacter, .returnBool true] :=
  rfl

variable {bytes : List UInt8} {i j n lead bits len : Nat} {k : IntegerKind}

def sized (n : Nat) : Value :=
  .integer .size n

-- The state of the scan at a position, with the variables of the loop body so far.
def scanning (bytes : List UInt8) (i : Nat) (own : Cells) : State where
  locals := own ++ [("i", ⟨.size, some (sized i)⟩),
    ("text", ⟨.constantReference .text, some (.text bytes)⟩)]

def decoding (lead : Nat) (bits len : Option Nat) : Cells :=
  [("len", ⟨.size, len.map sized⟩),
    ("cp", ⟨.word false 32, bits.map fun n => .integer (.word false 32) n⟩),
    ("lead", ⟨.byte, some (.integer .byte lead)⟩)]

-- The state before and while further bytes are taken.
def character (bytes : List UInt8) (i lead : Nat) (bits len : Option Nat) : State :=
  scanning bytes i (decoding lead bits len)

def taking (bytes : List UInt8) (i lead j bits len : Nat) : State :=
  scanning bytes i (("j", ⟨.size, some (sized j)⟩) :: decoding lead (some bits) (some len))

section Assign

open Cells State

variable {bits? len? : Option Nat}

theorem convert_bits (h : n < pow2 32) :
    Value.convert (.word false 32) (.integer k n) = some (.integer (.word false 32) n) :=
  congrArg (Option.map _) (IntegerKind.convert_word h)

theorem convert_sized (k : IntegerKind) (n : Nat) :
    Value.convert .size (.integer k n) = some (sized n) :=
  congrArg (Option.map _) (IntegerKind.convert_size n)

theorem assign_cp (h : n < pow2 32) :
    (character bytes i lead bits? len?).assign (.integer k n) (.name "cp") =
      some (character bytes i lead (some n) len?) :=
  assign_name <| put_tail (by decide) <| put_head (convert_bits h)

theorem assign_cp_taking (h : n < pow2 32) :
    (taking bytes i lead j bits len).assign (.integer k n) (.name "cp") =
      some (taking bytes i lead j n len) :=
  assign_name <| put_tail (by decide) <| put_tail (by decide) <| put_head (convert_bits h)

theorem assign_len :
    (character bytes i lead bits? len?).assign (.integer k n) (.name "len") =
      some (character bytes i lead bits? (some n)) :=
  assign_name <| put_head (convert_sized k n)

theorem assign_j : (taking bytes i lead j bits len).assign (sized n) (.name "j") =
    some (taking bytes i lead n bits len) :=
  assign_name <| put_head (convert_sized .size n)

theorem assign_i : (character bytes i lead bits? len?).assign (sized n) (.name "i") =
    some (character bytes n lead bits? len?) :=
  assign_name <| put_tail (by decide) <| put_tail (by decide) <| put_tail (by decide) <|
    put_head (convert_sized .size n)

end Assign

section Operators

open BinaryOperator IntegerKind

theorem less_size (m n : Nat) : less.apply (sized m) (sized n) = some (.bool (m < n)) :=
  apply_compare rfl (convert_size m) (convert_size n) (compare_less m n)

theorem greater_size (m n : Nat) : greater.apply (sized m) (sized n) = some (.bool (n < m)) :=
  apply_compare rfl (convert_size m) (convert_size n) (compare_greater m n)

theorem add_size (m n : Nat) : add.apply (sized m) (sized n) = some (sized (m + n)) :=
  apply_compute rfl (convert_size m) (convert_size n) rfl (convert_size (m + n))

theorem add_one_size (n : Nat) : add.apply (sized n) (.integer .int 1) = some (sized (n + 1)) :=
  apply_compute rfl (convert_size n) (convert_size 1) rfl (convert_size (n + 1))

-- Bytes are computed with as plain integers.
theorem less_byte (m n : Nat) :
    less.apply (.integer .byte m) (.integer .int n) = some (.bool (m < n)) :=
  apply_compare rfl rfl rfl (compare_less m n)

theorem shiftRight_byte (m n : Nat) :
    shiftRight.apply (.integer .byte m) (.integer .int n) = some (.integer .int ↑(m >>> n)) :=
  apply_shift (shift_right m n) rfl

theorem bitAnd_byte (m n : Nat) :
    bitAnd.apply (.integer .byte m) (.integer .int n) = some (.integer .int ↑(m &&& n)) :=
  apply_compute rfl rfl rfl (compute_bitAnd m n) rfl

-- Six bits are shifted in, and nothing is lost as long as there is room for them.
theorem shiftLeft_word (h : (bits + 1) * 64 ≤ pow2 32) :
    shiftLeft.apply (.integer (.word false 32) bits) (.integer .int ↑(6 : Nat)) =
      some (.integer (.word false 32) ↑(bits * 64)) := by
  have hb : bits <<< 6 = bits * 64 := Nat.shiftLeft_eq bits 6
  exact apply_shift (hb ▸ shift_left bits 6) (convert_word (by omega))

theorem bitOr_word (h : (bits + 1) * 64 ≤ pow2 32) (n : Nat) :
    bitOr.apply (.integer (.word false 32) ↑(bits * 64)) (.integer .int ↑(n &&& 0x3f)) =
      some (.integer (.word false 32) ↑(bits * 64 + n % 64)) := by
  have hn : n &&& 0x3f = n % 64 := Nat.and_two_pow_sub_one_eq_mod n 6
  have hl : n % 64 < 64 := Nat.mod_lt n (by decide)
  have ho : bits * 64 ||| n % 64 = bits * 64 + n % 64 := by
    have := Nat.shiftLeft_add_eq_or_of_lt (i := 6) hl bits
    rwa [Nat.shiftLeft_eq, eq_comm] at this
  rw [hn]
  exact apply_compute rfl (convert_word (by omega)) (convert_word (by omega))
    (ho ▸ compute_bitOr (bits * 64) (n % 64)) (convert_word (by omega))

end Operators

theorem eval_inText : p.eval inText (scanning bytes i []) =
    some (.bool (i < bytes.length), scanning bytes i []) :=
  eval_binary (less_size ..) rfl rfl

theorem execAll_take {first : Expr} (hn : n < pow2 32)
    (h : p.eval first (character bytes i lead none none) =
      some (.integer k n, character bytes i lead none none)) :
    p.execAll [.assign (.name "cp") first, .assign (.name "len") (.natural len)]
        (character bytes i lead none none) =
      some (.next, character bytes i lead (some n) (some len)) := by
  rw [execAll_assign h (assign_cp hn), execAll_assign rfl assign_len]
  rfl

theorem eval_leadIs (k n : Nat) :
    p.eval (.binary .equal (.parens (.binary .shiftRight (.name "lead") (.natural k))) (.hex 1 n))
        (character bytes i lead none none) =
      some (.bool (lead >>> k = n), character bytes i lead none none) :=
  eval_binary (BinaryOperator.equal_int ..) (eval_binary (shiftRight_byte ..) rfl rfl) rfl

theorem exec_leadChoice (hl : lead < 256) :
    p.exec leadChoice (character bytes i lead none none) =
      match leadBits lead with
      | some (bits, len) => some (.next, character bytes i lead (some bits) (some len))
      | none => some (.leave (some (.bool false)), character bytes i lead none none) := by
  have hb {n : Nat} (h : n ≤ lead) : n < pow2 32 := (h.trans_lt hl).trans (by decide)
  unfold leadChoice leadBits
  rw [exec_choose (eval_binary (less_byte ..) rfl rfl)]
  by_cases h₁ : lead < 0x80
  · simp only [h₁, decide_true, if_true]
    rw [execAll_take (hb le_rfl) rfl]
    rfl
  simp only [h₁, decide_false, if_false, Bool.false_eq_true]
  rw [execAll_cons, exec_choose (eval_leadIs 5 0x6)]
  by_cases h₂ : lead >>> 5 = 0x6
  · simp only [h₂, decide_true, if_true]
    rw [execAll_take (hb Nat.and_le_left) (eval_binary (bitAnd_byte ..) rfl rfl)]
    rfl
  simp only [h₂, decide_false, if_false, Bool.false_eq_true]
  rw [execAll_cons, exec_choose (eval_leadIs 4 0xe)]
  by_cases h₃ : lead >>> 4 = 0xe
  · simp only [h₃, decide_true, if_true]
    rw [execAll_take (hb Nat.and_le_left) (eval_binary (bitAnd_byte ..) rfl rfl)]
    rfl
  · simp only [h₃, decide_false, if_false, Bool.false_eq_true]
    rfl

theorem getElem?_of_drop {b : UInt8} {post : List UInt8} (h : bytes.drop i = b :: post) :
    bytes[i]? = some b := by
  rw [← List.head?_drop, h]
  rfl

theorem eval_byteAt {position : Expr} {s : State} {b : UInt8}
    (hs : s.locals.content "text" = some (.text bytes))
    (hp : p.eval position s = some (sized n, s)) (h : bytes[n]? = some b) :
    p.eval (byteAt position) s = some (.integer .byte b.toNat, s) := by
  refine eval_cast (v := .char b) (eval_index (eval_name hs) hp ?_) rfl
  simp [Value.element, sized, h]

theorem eval_joined {b : UInt8} (h : bytes[i + j]? = some b) (hb : (bits + 1) * 64 ≤ pow2 32) :
    p.eval joined (taking bytes i lead j bits len) =
      some (.integer (.word false 32) ↑(moreBits bits b), taking bytes i lead j bits len) := by
  have hv : p.eval (byteAt (.binary .add (.name "i") (.name "j")))
      (taking bytes i lead j bits len) =
      some (.integer .byte b.toNat, taking bytes i lead j bits len) :=
    eval_byteAt rfl (eval_binary (add_size ..) rfl rfl) h
  exact eval_binary (bitOr_word hb b.toNat) (eval_binary (shiftLeft_word hb) rfl rfl)
    (eval_binary (bitAnd_byte ..) hv rfl)

theorem increment_taking : increment "j" (taking bytes i lead j bits len) =
    some (.next, taking bytes i lead (j + 1) bits len) := by
  have hc : (taking bytes i lead j bits len).locals.content "j" = some (sized j) := rfl
  simp only [increment, hc, Option.bind_eq_bind, Option.bind_some, add_one_size, assign_j,
    Option.pure_def]

-- A byte more: how far the bound on the bits carries.
theorem room_for_byte {b : UInt8} {k : Nat} (h : (bits + 1) * 64 ^ (k + 1) ≤ pow2 32) :
    (bits + 1) * 64 ≤ pow2 32 ∧ moreBits bits b < pow2 32 ∧
      (moreBits bits b + 1) * 64 ^ k ≤ pow2 32 := by
  rw [Nat.pow_succ', ← Nat.mul_assoc] at h
  have hp := (Nat.le_mul_of_pos_right _ (Nat.pow_pos (by decide))).trans h
  have hm : moreBits bits b + 1 ≤ (bits + 1) * 64 := by
    have := Nat.mod_lt b.toNat (show 64 > 0 by decide)
    unfold moreBits
    omega
  exact ⟨hp, hm.trans hp, (Nat.mul_le_mul_right _ hm).trans h⟩

-- The loop takes bytes until the character has all of its own.
theorem iterate_joined {more post : List UInt8} (hd : bytes.drop (i + j) = more ++ post)
    (hl : j + more.length = len) (hb : (bits + 1) * 64 ^ more.length ≤ pow2 32) :
    iterate (p.eval (.binary .less (.name "j") (.name "len")))
        (fun s => (Outcome.leaveBlock (p.execAll [.assign (.name "cp") joined] s)
          s.locals.length).andThen (increment "j"))
        (taking bytes i lead j bits len) =
      some (.next, taking bytes i lead len (more.foldl moreBits bits) len) := by
  have ht (j bits : Nat) : p.eval (.binary .less (.name "j") (.name "len"))
      (taking bytes i lead j bits len) = some (.bool (j < len), taking bytes i lead j bits len) :=
    eval_binary (less_size ..) rfl rfl
  induction more generalizing j bits
  case nil =>
    have hj : decide (j < len) = false := by simp [← hl]
    rw [iterate_done (hj ▸ ht j bits), ← hl]
    rfl
  case cons b more ih =>
    have ⟨hp, hc, hm⟩ := room_for_byte (b := b) hb
    have hj : decide (j < len) = true := by simp [← hl]
    have hg : bytes[i + j]? = some b := getElem?_of_drop hd
    have hd' : bytes.drop (i + (j + 1)) = more ++ post := by
      rw [← Nat.add_assoc, ← List.drop_drop, hd]
      rfl
    have hs : p.execAll [.assign (.name "cp") joined] (taking bytes i lead j bits len) =
        some (.next, taking bytes i lead j (moreBits bits b) len) := by
      rw [execAll_assign (eval_joined hg hp) (assign_cp_taking hc)]
      rfl
    have hn : (Outcome.leaveBlock (p.execAll [.assign (.name "cp") joined]
        (taking bytes i lead j bits len)) (taking bytes i lead j bits len).locals.length).andThen
        (increment "j") = some (.next, taking bytes i lead (j + 1) (moreBits bits b) len) := by
      rw [hs]
      exact increment_taking
    rw [iterate_next (hj ▸ ht j bits) hn, ih hd' ?_ hm]
    · rfl
    · rw [← hl, List.length_cons]
      omega

theorem any_hostBlanks (c : Char) :
    (Text.hostBlanks.map Char.toNat).any (fun n => (n : Int) = c.toNat) = Text.isHostBlank c := by
  rw [Bool.eq_iff_iff, List.any_eq_true, Text.isHostBlank, List.contains_iff_mem]
  simp [Char.toNat_inj]

theorem convert_toNat (b : UInt8) :
    Value.convert .byte (.integer .byte b.toNat) = some (.integer .byte b.toNat) := by
  have := b.toNat_lt
  simp [Value.convert, Value.toInteger, IntegerKind.convert]
  omega

theorem execAll_lead {lead : UInt8} {rest : List Stmt} (h : bytes[i]? = some lead) :
    p.execAll (.declare true .byte "lead" (some (byteAt (.name "i")))
        :: .declare false (.word false 32) "cp" none :: .declare false .size "len" none :: rest)
        (scanning bytes i []) =
      p.execAll rest (character bytes i lead.toNat none none) := by
  rw [execAll_declare (eval_byteAt rfl rfl h) (convert_toNat lead)]
  rfl

theorem eval_beyond (h : i + len ≤ bytes.length) :
    p.eval (.binary .greater (.binary .add (.name "i") (.name "len")) textSize)
        (character bytes i lead (some bits) (some len)) =
      some (.bool false, character bytes i lead (some bits) (some len)) := by
  refine eval_binary ?_ (eval_binary (add_size ..) rfl rfl) rfl
  rw [← decide_eq_false (not_lt.mpr h)]
  exact greater_size ..

-- Up to where the bits of a character are together.
theorem execAll_scanCharacter {lead : UInt8} {more post : List UInt8}
    (hd : bytes.drop i = lead :: more ++ post)
    (hl : leadBits lead.toNat = some (bits, more.length + 1))
    (hb : (bits + 1) * 64 ^ more.length ≤ pow2 32) :
    p.execAll scanCharacter (scanning bytes i []) =
      p.execAll [.select (.name "cp") (Text.hostBlanks.map Char.toNat) [.exitSwitch] fail,
          .addAssign (.name "i") (.name "len")]
        (character bytes i lead.toNat (some (more.foldl moreBits bits))
          (some (more.length + 1))) := by
  have hn : i + (more.length + 1) ≤ bytes.length := by
    have := congrArg List.length hd
    simp at this
    omega
  have hj : bytes.drop (i + 1) = more ++ post := by
    rw [← List.drop_drop, hd]
    rfl
  rw [scanCharacter, execAll_lead (getElem?_of_drop hd), execAll_cons,
    exec_leadChoice lead.toNat_lt, hl]
  simp only [Outcome.andThen_next]
  rw [execAll_when_false (eval_beyond hn) rfl, execAll_cons,
    exec_count rfl rfl (iterate_joined hj (Nat.add_comm ..) hb)]
  rfl

theorem toNat_lt_of_isHostBlank {c : Char} (h : Text.isHostBlank c) : c.toNat < 0x10000 := by
  have hb : Text.hostBlanks.all (·.toNat < 0x10000) := rfl
  exact of_decide_eq_true <| List.all_eq_true.mp hb c (List.contains_iff_mem.mp h)

variable {c : Char} {post : List UInt8}

theorem scanCharacter_next (hd : bytes.drop i = String.utf8EncodeChar c ++ post)
    (hc : Text.isHostBlank c) :
    Outcome.leaveBlock (p.execAll scanCharacter (scanning bytes i []))
        (scanning bytes i []).locals.length =
      some (.next, scanning bytes (i + (String.utf8EncodeChar c).length) []) := by
  have ⟨lead, more, he, h⟩ := utf8EncodeChar_cases c
  rw [he] at hd ⊢
  rcases h with ⟨bits, hl, hb, hf⟩ | ⟨_, h⟩
  case inl =>
    have ha : p.execAll [.addAssign (.name "i") (.name "len")]
        (character bytes i lead.toNat (some c.toNat) (some (more.length + 1))) =
        some (.next, character bytes (i + (more.length + 1)) lead.toNat (some c.toNat)
          (some (more.length + 1))) := by
      rw [execAll_cons, exec_addAssign (eval_binary (add_size ..) rfl rfl) assign_i]
      rfl
    rw [execAll_scanCharacter hd hl hb, hf, execAll_cons, exec_select rfl, any_hostBlanks, hc]
    exact congrArg (Outcome.leaveBlock · 2) ha
  case inr => exact absurd (toNat_lt_of_isHostBlank hc) (not_lt.mpr h)

theorem scanCharacter_leave (hd : bytes.drop i = String.utf8EncodeChar c ++ post)
    (hc : Text.isHostBlank c = false) :
    ∃ t, Outcome.leaveBlock (p.execAll scanCharacter (scanning bytes i []))
        (scanning bytes i []).locals.length = some (.leave (some (.bool false)), t) ∧
      t.targets = [] := by
  have ⟨lead, more, he, h⟩ := utf8EncodeChar_cases c
  rw [he] at hd
  rcases h with ⟨bits, hl, hb, hf⟩ | ⟨hl, _⟩
  case inl =>
    rw [execAll_scanCharacter hd hl hb, hf, execAll_cons, exec_select rfl, any_hostBlanks, hc]
    exact ⟨_, rfl, rfl⟩
  case inr =>
    rw [scanCharacter, execAll_lead (getElem?_of_drop hd), execAll_cons,
      exec_leadChoice lead.toNat_lt, hl]
    exact ⟨_, rfl, rfl⟩

-- The scan goes on as long as there are blanks.
theorem iterate_scanCharacter {cs : List Char}
    (hd : bytes.drop i = cs.flatMap String.utf8EncodeChar) :
    ∃ t, iterate (p.eval inText)
        (fun s => Outcome.leaveBlock (p.execAll scanCharacter s) s.locals.length)
        (scanning bytes i []) =
      some (if cs.all Text.isHostBlank then .next else .leave (some (.bool false)), t) ∧
      t.targets = [] := by
  induction cs generalizing i
  case nil =>
    have hi : decide (i < bytes.length) = false :=
      decide_eq_false <| not_lt.mpr <| List.drop_eq_nil_iff.mp hd
    exact ⟨_, iterate_done (hi ▸ eval_inText), rfl⟩
  case cons c cs ih =>
    rw [List.flatMap_cons] at hd
    have hi : decide (i < bytes.length) = true := by
      have ⟨_, _, he, _⟩ := utf8EncodeChar_cases c
      have := congrArg List.length hd
      simp [he] at this ⊢
      omega
    rw [List.all_cons]
    cases hc : Text.isHostBlank c
    case true =>
      rw [iterate_next (hi ▸ eval_inText) (scanCharacter_next hd hc), Bool.true_and]
      apply ih
      rw [← List.drop_drop, hd, List.drop_left]
    case false =>
      have ⟨t, h, ht⟩ := scanCharacter_leave (p := p) hd hc
      exact ⟨t, iterate_leave (hi ▸ eval_inText) h, ht⟩

theorem run_isBlank (policy : CoercionPolicy) (s : String) :
    (function policy .isBlank).run p [.text (utf8 s)] [] =
      some (.bool (HostValue.isBlank s), []) := by
  have ⟨t, h, ht⟩ := iterate_scanCharacter (p := p) (i := 0) (utf8_eq_flatMap s)
  refine Function.run_of_returns rfl rfl (v := .bool (HostValue.isBlank s)) ?_ rfl
  have hl : p.execAll isBlankBody
      { locals := [("text", ⟨.constantReference .text, some (.text (utf8 s))⟩)] } =
      Outcome.andThen (some (if HostValue.isBlank s then .next else .leave (some (.bool false)), t))
        (p.execAll [.returnBool true]) := by
    rw [isBlankBody_eq, execAll_declare rfl rfl, HostValue.isBlank, ← h]
    rfl
  refine ⟨t, hl.trans ?_, by rw [ht]; rfl⟩
  cases HostValue.isBlank s <;> rfl

end Scan

end Helper

end Source

end AddonBinding
