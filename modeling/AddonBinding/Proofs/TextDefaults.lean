import AddonBinding.Proofs.ManifestEntries
import AddonBinding.Proofs.StringLiterals

namespace AddonBinding

namespace Source

-- What a text gets that is initialised with a pointer to characters: those before the first NUL.
def terminated (bytes : List UInt8) : List UInt8 :=
  bytes.takeWhile (· ≠ 0)

-- A line that declares a text and initialises it with a literal: the name and the bytes of the text.
def textVariable? (line : String) : Option (String × List UInt8) := do
  let rest ← Identifier.after? "std::string " (line.toList.dropWhile (· = ' '))
  let value ← Identifier.after? " = " (rest.dropWhile (· ≠ ' '))
  match ← StringLiteral.read? value with
  | (bytes, [';']) => some (String.ofList (rest.takeWhile (· ≠ ' ')), terminated bytes)
  | _              => none

section Bytes

-- Of all characters only NUL has a byte that is zero.
theorem zero_mem_utf8EncodeChar_iff (c : Char) : 0 ∈ String.utf8EncodeChar c ↔ c = '\x00' := by
  have hz (n : Nat) : (0 : UInt8) = .ofNat n ↔ n % 256 = 0 := by
    rw [← UInt8.toNat_inj, UInt8.toNat_ofNat', eq_comm]
    rfl
  have hc : c = '\x00' ↔ c.toNat = 0 := by
    rw [← Char.toNat_inj]
    rfl
  have hv : c.toNat < 0x110000 := by
    have := c.valid
    simp only [UInt32.isValidChar, Nat.isValidChar, Char.toNat_val] at this
    omega
  simp only [String.utf8EncodeChar, Char.toNat_val, hc]
  generalize c.toNat = n at hv
  repeat' split
  all_goals
    simp only [List.mem_cons, List.not_mem_nil, or_false, hz]
    omega

theorem terminated_utf8_iff (s : String) : terminated (utf8 s) = utf8 s ↔ '\x00' ∉ s.toList := by
  rw [terminated, List.takeWhile_eq_self_iff, utf8_eq_flatMap]
  simp only [List.mem_flatMap, decide_eq_true_eq]
  constructor
  case mp =>
    intro h hm
    exact h 0 ⟨_, hm, (zero_mem_utf8EncodeChar_iff _).mpr rfl⟩ rfl
  case mpr =>
    rintro h b ⟨c, hc, hb⟩ rfl
    exact h <| (zero_mem_utf8EncodeChar_iff c).mp hb ▸ hc

end Bytes

theorem textVariable?_line {name : String} (hn : ' ' ∉ name.toList) (level : Nat) (s : String) :
    textVariable? (line level ("std::string " ++ name ++ " = " ++ stringLiteral s ++ ";")) =
      some (name, terminated (utf8 s)) := by
  have hl : (line level ("std::string " ++ name ++ " = " ++ stringLiteral s ++ ";")).toList =
      List.replicate (2 * level) ' ' ++ ("std::string ".toList ++
        (name.toList ++ (" = ".toList ++ ((stringLiteral s).toList ++ [';'])))) := by
    simp [line]
  have hp : ∀ c ∈ name.toList, decide (c ≠ ' ') = true := by
    intro c hc
    exact decide_eq_true fun he => hn (he ▸ hc)
  have hd cs : List.dropWhile (fun c => decide (c = ' '))
      (List.replicate (2 * level) ' ' ++ ("std::string ".toList ++ cs)) =
        "std::string ".toList ++ cs := by
    rw [List.dropWhile_append_of_pos (by simp)]
    rfl
  rw [textVariable?, hl, hd, Identifier.after?_append]
  simp only [Option.bind_eq_bind, Option.bind_some, List.dropWhile_append_of_pos hp,
    List.takeWhile_append_of_pos hp]
  have ht cs : List.dropWhile (fun c => decide (c ≠ ' ')) (" = ".toList ++ cs) = " = ".toList ++ cs :=
    rfl
  have hw cs : List.takeWhile (fun c => decide (c ≠ ' ')) (" = ".toList ++ cs) = [] := rfl
  rw [ht, hw, Identifier.after?_append, Option.bind_some, StringLiteral.read?_stringLiteral]
  simp

theorem mem_blockLines {stmt : Stmt} {stmts : List Stmt} {level : Nat} {l : String}
    (hs : stmt ∈ stmts) (hl : l ∈ stmt.lines level) : l ∈ Stmt.blockLines level stmts := by
  induction stmts
  case nil => contradiction
  case cons t stmts hi =>
    rw [Stmt.blockLines, List.mem_append]
    rcases List.mem_cons.mp hs with rfl | hs
    · exact .inl hl
    · exact .inr <| hi hs

theorem EntryPoint.mem_lines {e : EntryPoint} {l : String} (h : l ∈ Stmt.blockLines 1 e.body) :
    l ∈ e.lines := by
  simp [lines, h]

end Source

open Source

namespace ConstructorPlan

variable {c : ConstructorPlan} {p : ParameterPlan} {k : Nat}

theorem bind_omitted {policy : CoercionPolicy} {args : List HostValue}
    {filled : List (Nat × NativeValue)} (h : c.bind policy args = .ok filled)
    (hp : c.parameters[k]? = some p) (hk : args.length ≤ k) :
    filled[k]? = some (p.slot, p.initial) := by
  rw [bind, ite_error_eq_ok_iff, mapM_eq_ok_iff] at h
  have hz : c.parameters.zipIdx[k]? = some (p, k) := by
    rw [List.getElem?_zipIdx, hp, Option.map_some, Nat.zero_add]
  obtain ⟨b, hb, h⟩ := getElem?_of_forall₂ h.right hz
  obtain ⟨v, hv, h⟩ := bind_eq_ok_iff.mp h
  rw [argument, List.getElem?_eq_none hk] at hv
  rw [hb, ← pure_eq_ok_iff.mp h, Except.ok.inj hv]

theorem textVariable?_body {kind : TextKind} {s : String} (hn : ' ' ∉ p.name.toList)
    (hp : p ∈ c.parameters) (ht : p.type = .text kind) (hi : p.initial = .text s) :
    ∃ line ∈ Stmt.blockLines 1 c.body,
      textVariable? line = some (p.name, terminated (utf8 s)) := by
  refine ⟨_, ?_, textVariable?_line hn 1 s⟩
  have hm : argumentVariable p ∈ c.body := by
    simp only [body, List.mem_append]
    exact .inl <| .inl <| .inl <| .inl <| .inr <| List.mem_map_of_mem hp
  have hl : (argumentVariable p).lines 1 =
      [line 1 ("" ++ "std::string" ++ " " ++ p.name ++ (" = " ++ stringLiteral s) ++ ";")] := by
    rw [argumentVariable, ht, hi]
    rfl
  refine mem_blockLines hm (hl ▸ List.mem_singleton.mpr ?_)
  have hd : "" ++ "std::string" ++ " " = "std::string " := rfl
  simp only [hd, String.append_assoc]

end ConstructorPlan

-- The host puts the whole text in for an argument that is left out, whereas the local variable of
-- the constructor stops at the first NUL. The two agree on exactly those texts that have none.
theorem text_default_agrees_iff {options : Options} {interfaces : List Interface} {u : CompiledUnit}
    (h : compile options interfaces = .ok u) {i : Interface} (hi : i ∈ interfaces) {k : Nat}
    {p : Parameter} (hp : i.constructor[k]? = some p) {kind : TextKind}
    (ht : ScalarType.ofTag? p.type = some (.text kind)) {s : String}
    (hd : p.default = some (.text s)) :
    ∃ m plan e line bytes, HostModule.load interfaces options = .ok m ∧
      m.class? i.name = some plan ∧
      (∀ policy args filled, plan.constructor.bind policy args = .ok filled → args.length ≤ k →
        ∃ slot, filled[k]? = some (slot, .text s)) ∧
      e ∈ u.entryPoints ∧ e.kind = .method ∧ e.symbol = i.name ++ "::New" ∧ line ∈ e.lines ∧
      textVariable? line = some (p.name, bytes) ∧ bytes = terminated (utf8 s) ∧
      (bytes = utf8 s ↔ '\x00' ∉ s.toList) := by
  have ⟨hn, plans, hps, hu⟩ := compile_eq_ok_iff.mp h
  have ha := planAll_accepted hps
  have ⟨_, hs⟩ := planAll_eq_ok_iff.mp hps
  have ⟨plan, hm, hplan⟩ := exists_of_forall₂_left hs hi
  have hpl := Interface.plan_planned hplan
  have ⟨q, hq, hpq⟩ := getElem?_of_forall₂ hpl.parameters hp
  have hqt : q.type = .text kind :=
    Option.some.inj <| (ScalarType.ofTag?_eq_some_iff.mpr hpq.type).symm.trans ht
  have hqi : q.initial = .text s := by
    rw [ParameterPlan.initial, hpq.default, Parameter.fallback, hd, hqt]
    rfl
  have hqm := List.mem_of_getElem? hq
  have hsp : ' ' ∉ q.name.toList := ((ha.named plan hm).usable q hqm).wellFormed.not_mem rfl
  obtain ⟨line, hl, hv⟩ := ConstructorPlan.textVariable?_body hsp hqm hqt hqi
  subst hu
  refine ⟨_, plan, _, line, _, HostModule.load_eq_ok_iff.mpr ⟨hn, plans, hps, rfl⟩,
    hpl.name ▸ ha.class?_eq hm _ _, fun policy args filled hb hk => ⟨q.slot, ?_⟩,
    CompiledUnit.mem_entryPoints (by simp) |>.mpr ⟨plan, hm, InterfacePlan.mem_entryPoints.mpr <|
      .inr <| .inl <| List.mem_singleton_self _⟩, rfl, by rw [hpl.interface], ?_, hpq.name ▸ hv, rfl,
    terminated_utf8_iff s⟩
  · rw [ConstructorPlan.bind_omitted hb hq hk, hqi]
  · exact EntryPoint.mem_lines hl

def note : Interface where
  name        := "Note"
  constructor := [⟨"title", "DOMString", false, some (.text "a?")⟩,
    ⟨"body", "DOMString", false, some (.text "a\x00b")⟩]
  attributes  := [⟨"title", "DOMString", true⟩, ⟨"body", "DOMString", true⟩]

theorem text_default_agrees_iff_note :
    ∃ u m plan e line, compile {} [note] = .ok u ∧ HostModule.load [note] {} = .ok m ∧
      m.class? "Note" = some plan ∧
      (∀ filled, plan.constructor.bind m.policy [] = .ok filled →
        ∃ slot, filled[0]? = some (slot, .text "a?")) ∧
      e ∈ u.entryPoints ∧ e.symbol = "Note::New" ∧ line ∈ e.lines ∧
      textVariable? line = some ("title", utf8 "a?") := by
  have ⟨u, hu⟩ : ∃ u, compile {} [note] = .ok u := ⟨_, rfl⟩
  have ⟨m, plan, e, line, bytes, hm, hc, hf, he, _, hs, hl, hv, _, hb⟩ :=
    text_default_agrees_iff hu (List.mem_singleton_self _) (k := 0) rfl
      (by decide : ScalarType.ofTag? "DOMString" = some (.text .dom)) rfl
  have hb := hb.mpr (by decide)
  exact ⟨u, m, plan, e, line, hu, hm, hc, fun filled h => hf m.policy [] filled h (Nat.zero_le 0),
    he, hs, hl, hb ▸ hv⟩

-- The same interface has a text for which the two do not agree.
theorem text_default_cut_at_nul :
    ∃ u m plan e line, compile {} [note] = .ok u ∧ HostModule.load [note] {} = .ok m ∧
      m.class? "Note" = some plan ∧
      plan.constructor.bind m.policy [] = .ok [(0, .text "a?"), (1, .text "a\x00b")] ∧
      e ∈ u.entryPoints ∧ e.symbol = "Note::New" ∧ line ∈ e.lines ∧
      textVariable? line = some ("body", [97]) ∧ utf8 "a\x00b" = [97, 0, 98] := by
  let body : ParameterPlan := ⟨"body", .text .dom, some (.text "a\x00b"), 1⟩
  let c : ConstructorPlan :=
    ⟨"Note", [⟨"title", .text .dom, some (.text "a?"), 0⟩, body]⟩
  have ⟨line, hl, hv⟩ := c.textVariable?_body (p := body) (by decide) (.tail _ (.head _)) rfl rfl
  have hb : utf8 "a\x00b" = [97, 0, 98] := (utf8_eq_flatMap _).trans (by decide)
  rw [hb] at hv
  refine ⟨_, _, ⟨"Note", [⟨"title", .text .dom, false, 0⟩, ⟨"body", .text .dom, false, 1⟩], c⟩,
    ⟨some c.signature, .method, "Note::New", c.body⟩, line, rfl, rfl, rfl, rfl, ?_, rfl, ?_, hv, hb⟩
  · exact CompiledUnit.mem_entryPoints (by simp) |>.mpr ⟨_, List.mem_singleton_self _,
      InterfacePlan.mem_entryPoints.mpr <| .inr <| .inl <| List.mem_singleton_self _⟩
  · exact EntryPoint.mem_lines hl

end AddonBinding
