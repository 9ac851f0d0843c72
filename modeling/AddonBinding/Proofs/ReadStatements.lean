import AddonBinding.Proofs.ReadExpressions

-- Statements are read back from their lines.

namespace AddonBinding.Source

open Token

section Splitting

variable {m : Mark} {ts : List Token}

theorem upTo?_append (m : Mark) (ts : List Token) : upTo? m (ts ++ [.mark m]) = some ts := by
  simp [upTo?]

theorem splitAt?_append (h : .mark m ∉ ts) (us : List Token) :
    splitAt? m (ts ++ .mark m :: us) = some (ts, us) := by
  induction ts
  case nil          => simp [splitAt?]
  case cons t ts hi =>
    simp only [List.mem_cons, not_or] at h
    simp [splitAt?, Ne.symm h.left, hi h.right]

theorem splitAt?_eq_none (h : .mark m ∉ ts) : splitAt? m ts = none := by
  induction ts
  case nil          => rfl
  case cons t ts hi =>
    simp only [List.mem_cons, not_or] at h
    simp [splitAt?, Ne.symm h.left, hi h.right]

end Splitting

theorem lineTokens_line (level : Nat) (s : String) : lineTokens (line level s) = lineTokens s := by
  simp [lineTokens, line]

theorem lineTokens_eq {s : String} (ts : List Token) (h : scan none s.toList = ts)
    (hr : .remark ∉ ts) : lineTokens s = ts := by
  rw [lineTokens, h]
  exact List.filter_eq_self.mpr fun t ht => decide_eq_true fun he => hr (he ▸ ht)

namespace Expr

theorem tokens_ne_nil (e : Expr) : e.tokens ≠ [] := by
  cases e <;> simp [tokens]

@[simp]
theorem remark_not_mem_tokens (e : Expr) : .remark ∉ e.tokens :=
  not_mem_tokens rfl e

@[simp]
theorem remark_not_mem_argTokens (args : List Expr) : .remark ∉ argTokens args :=
  fun h => Bool.false_ne_true (List.all_eq_true.mp (isPart_argTokens args) _ h)

end Expr

namespace Variable

-- A type with a name of its own, which does not begin anything else.
def isBase (t : TypeName) : Bool :=
  t = .byte || isName t.render.toList && TypeName.ofName t.render = t &&
    (t.render ≠ "const" && t.render ≠ "unsigned" && Keyword.ofChars? t.render.toList = none)

def baseTokens : TypeName → List Token
  | .byte => [.name "unsigned".toList, .name "char".toList]
  | t     => [.name t.render.toList]

-- What stands around a base type.
structure Form where
  constant : Bool
  base     : TypeName
  mark     : Option Mark

def form (v : Variable) : Form :=
  match v.type with
  | .pointer t           => ⟨v.constant, t, some .star⟩
  | .constantReference t => ⟨true, t, some (.operator .bitAnd)⟩
  | t                    => ⟨v.constant, t, none⟩

def render (v : Variable) : String :=
  Stmt.constantMark v.constant ++ v.type.render ++ " " ++ v.name

def constantTokens (constant : Bool) : List Token :=
  if constant then [.name "const".toList] else []

def tokens (v : Variable) : List Token :=
  constantTokens v.form.constant ++ (baseTokens v.form.base ++
    ((v.form.mark.map Token.mark).toList ++ [.name v.name.toList]))

def isReadable (v : Variable) : Bool :=
  isBase v.form.base && isName v.name.toList && match v.type with
    | .constantReference _ => !v.constant
    | _                    => true

variable {v : Variable} {t : TypeName} {cs : List Char} {ts : List Token}

theorem toList_render (h : v.isReadable) : v.render.toList =
    (Stmt.constantMark v.form.constant).toList ++ (v.form.base.render.toList ++
      (v.form.mark.elim [] Mark.chars ++ ' ' :: v.name.toList)) := by
  obtain ⟨constant, t, x⟩ := v
  cases t
  case constantReference t =>
    simp only [isReadable, Bool.and_eq_true, Bool.not_eq_true'] at h
    simp [render, form, TypeName.render, Mark.chars, BinaryOperator.render, h.2, Stmt.constantMark]
  all_goals simp [render, form, TypeName.render, Mark.chars]

theorem scan_constantMark (constant : Bool) (cs : List Char) :
    scan none ((Stmt.constantMark constant).toList ++ cs) =
      constantTokens constant ++ scan none cs := by
  cases constant
  case false => rfl
  case true  =>
    have hn : scan none ("const".toList ++ ' ' :: cs) = _ := scan_name (by decide) (by simp; decide)
    simpa [Stmt.constantMark, constantTokens] using hn

theorem baseTokens_of_ne (h : t ≠ .byte) : baseTokens t = [.name t.render.toList] := by
  cases t <;> first | contradiction | rfl

theorem scan_base (h : isBase t) (hc : ∀ c ∈ cs.head?, isNameChar c = false) :
    scan none (t.render.toList ++ cs) = baseTokens t ++ scan none cs := by
  by_cases ht : t = .byte
  case pos =>
    subst ht
    have hn : scan none ("unsigned".toList ++ ' ' :: ("char".toList ++ cs)) = _ :=
      scan_name (by decide) (by simp; decide)
    rw [scan_blank, scan_name (by decide) hc] at hn
    simpa [TypeName.render, baseTokens] using hn
  case neg =>
    simp only [isBase, ht, decide_false, Bool.false_or, Bool.and_eq_true] at h
    rw [baseTokens_of_ne ht, scan_name h.1.1 hc]
    rfl

theorem scan_render (h : v.isReadable) (cs : List Char)
    (hc : ∀ c ∈ cs.head?, isNameChar c = false) :
    scan none (v.render.toList ++ cs) = v.tokens ++ scan none cs := by
  have ht : isBase v.form.base ∧ isName v.name.toList := by
    simp only [isReadable, Bool.and_eq_true] at h
    exact h.1
  have hm : v.form.mark = none ∨ v.form.mark = some .star ∨
      v.form.mark = some (.operator .bitAnd) := by
    cases hv : v.type <;> simp [form, hv]
  have hx : scan none (' ' :: (v.name.toList ++ cs)) = .name v.name.toList :: scan none cs :=
    scan_name ht.2 hc
  rw [toList_render h, tokens]
  simp only [List.append_assoc, List.cons_append]
  rw [scan_constantMark]
  rcases hm with hm | hm | hm <;> rw [hm]
  · rw [Option.elim_none, List.nil_append, scan_base ht.1 (by simp; decide), hx]
    rfl
  · rw [Option.elim_some, scan_base ht.1 (by simp [Mark.chars]; decide),
      scan_mark (by decide) (by decide) (apart_cons.mpr rfl), hx]
    rfl
  · rw [Option.elim_some, scan_base ht.1 (by simp [Mark.chars, BinaryOperator.render]; decide),
      scan_mark (by decide) (by decide) (apart_cons.mpr rfl), hx]
    rfl

theorem readType_base (h : isBase t) (ts : List Token) :
    readType (baseTokens t ++ ts) = some (t, ts) := by
  by_cases ht : t = .byte
  case pos => subst ht; rfl
  case neg =>
    simp only [isBase, ht, decide_false, Bool.false_or, Bool.and_eq_true, decide_eq_true_eq] at h
    have hu : t.render.toList ≠ "unsigned".toList := fun h' => h.2.1.2 (String.toList_inj.mp h')
    have ho : some (TypeName.ofName (String.ofList t.render.toList), ts) = some (t, ts) := by
      rw [String.ofList_toList, h.1.2]
    rw [baseTokens_of_ne ht, List.singleton_append, ← ho]
    rcases ts with _ | ⟨u, ts⟩
    case nil => rfl
    case cons =>
      cases u
      case name => exact if_neg hu
      all_goals rfl

theorem head?_baseTokens (h : isBase t) : ∃ n ts, baseTokens t = .name n :: ts ∧
    n ≠ "const".toList ∧ Keyword.ofChars? n = none := by
  by_cases ht : t = .byte
  case pos =>
    subst ht
    exact ⟨_, _, rfl, by decide, by decide⟩
  case neg =>
    simp only [isBase, ht, decide_false, Bool.false_or, Bool.and_eq_true, decide_eq_true_eq] at h
    exact ⟨_, _, baseTokens_of_ne ht, fun h' => h.2.1.1 (String.toList_inj.mp h'), h.2.2⟩

theorem readName_tokens (h : v.isReadable) (ts : List Token) :
    readName v.form.constant v.form.base
      ((v.form.mark.map Token.mark).toList ++ (.name v.name.toList :: ts)) = some (v, ts) := by
  obtain ⟨constant, t, x⟩ := v
  have hx : String.ofList x.toList = x := String.ofList_toList
  cases t
  case constantReference t =>
    simp only [isReadable, Bool.and_eq_true, Bool.not_eq_true'] at h
    obtain rfl := h.2
    exact congrArg (fun x => some (Variable.mk false (.constantReference t) x, ts)) hx
  case pointer t =>
    exact congrArg (fun x => some (Variable.mk constant (.pointer t) x, ts)) hx
  all_goals exact congrArg (fun x => some (Variable.mk constant _ x, ts)) hx

theorem read?_tokens (h : v.isReadable) (ts : List Token) :
    read? (v.tokens ++ ts) = some (v, ts) := by
  have hb : isBase v.form.base := by
    simp only [isReadable, Bool.and_eq_true] at h
    exact h.1.1
  have hr : (baseTokens v.form.base ++ ((v.form.mark.map Token.mark).toList ++
      [.name v.name.toList])) ++ ts =
        baseTokens v.form.base ++ ((v.form.mark.map Token.mark).toList ++
          .name v.name.toList :: ts) := by
    simp
  have hn := readName_tokens h ts
  rw [tokens, List.append_assoc, hr]
  cases hc : v.form.constant
  case true  =>
    rw [hc] at hn
    show (readType (baseTokens v.form.base ++ _) >>= _) = _
    rw [readType_base hb]
    exact hn
  case false =>
    rw [hc] at hn
    obtain ⟨n, us, hs, hk, -⟩ := head?_baseTokens hb
    have ht : (baseTokens v.form.base ++ ((v.form.mark.map Token.mark).toList ++
        .name v.name.toList :: ts)).head? ≠ some (.name "const".toList) := by
      rw [hs]
      simpa using hk
    rw [constantTokens, if_neg Bool.false_ne_true, List.nil_append, read?]
    simp only [ht, decide_false, if_false]
    rw [readType_base hb]
    exact hn

theorem exists_tokens (h : v.isReadable) :
    ∃ n ts, v.tokens = .name n :: ts ∧ Keyword.ofChars? n = none := by
  simp only [isReadable, Bool.and_eq_true] at h
  obtain ⟨n, ts, hn, -, hk⟩ := head?_baseTokens h.1.1
  rw [tokens, hn]
  cases v.form.constant
  case false => exact ⟨n, _, rfl, hk⟩
  case true  => exact ⟨_, _, rfl, by decide⟩

-- The tokens that variables are made of.
def isPart : Token → Bool
  | .name _ => true
  | .mark m => m = .star || m = .operator .bitAnd
  | _       => false

theorem not_mem_tokens {t : Token} (ht : isPart t = false) (v : Variable) : t ∉ v.tokens := by
  have hc (constant : Bool) : (constantTokens constant).all isPart := by
    cases constant <;> rfl
  have hb (t : TypeName) : (baseTokens t).all isPart := by cases t <;> rfl
  have hm : (v.form.mark.map Token.mark).toList.all isPart := by
    cases hv : v.type <;> simp [form, hv, isPart]
  have hv : v.tokens.all isPart := by
    simp only [tokens, List.all_append, hc, hb, hm, Bool.true_and]
    rfl
  exact fun h => Bool.eq_false_iff.mp ht (List.all_eq_true.mp hv t h)

@[simp]
theorem remark_not_mem_tokens (v : Variable) : .remark ∉ v.tokens :=
  not_mem_tokens rfl v

end Variable

namespace Line

def read? (l : String) : Option Line :=
  ofTokens? (lineTokens l)

-- What follows a name that is not a type.
def goesOn : Token → Bool
  | .name _ => false
  | .mark m => m ≠ .star
  | _       => true

-- How an expression begins that is a statement, or that something is assigned to.
def isStart : List Token → Bool
  | .name n :: rest =>
    n ≠ "const".toList && Keyword.ofChars? n = none && rest.head?.all goesOn
  | .mark m :: _    => m ≠ .closeBlock
  | _               => false

variable {e : Expr} {s : Stmt} {v : Variable} {m : Mark} {ts us : List Token} {level : Nat}

theorem isStart_append (h : isStart ts) (hm : m ≠ .star) (us : List Token) :
    isStart (ts ++ .mark m :: us) := by
  match ts with
  | .name n :: rest =>
    simp only [isStart, Bool.and_eq_true] at h
    have hr : (rest ++ .mark m :: us).head?.all goesOn := by
      cases rest
      case nil  => simpa [goesOn] using hm
      case cons => exact h.2
    simp only [List.cons_append, isStart, hr, h.1, Bool.and_self]
  | .mark _ :: _    => exact h

theorem read?_variable_of_isStart (h : isStart ts) : Variable.read? ts = none := by
  match ts with
  | .name n :: rest =>
    simp only [isStart, Bool.and_eq_true, decide_eq_true_eq] at h
    have hc : ¬(Token.name n :: rest).head? = some (.name "const".toList) := by simpa using h.1.1
    simp only [Variable.read?, hc, decide_false, if_false]
    have hr := h.2
    rcases rest with _ | ⟨u, rest⟩
    case nil  => rfl
    case cons =>
      cases u
      case name => contradiction
      case mark m =>
        show Variable.readName false _ (.mark m :: rest) = none
        unfold Variable.readName
        split <;> simp_all [goesOn]
      all_goals rfl
  | .mark _ :: _    => rfl

theorem ofTokens?_of_isStart (h : isStart ts) (hs : simple? ts = some s) :
    ofTokens? (ts ++ [.mark .semicolon]) = some (.single s) := by
  have hu : (upTo? .semicolon (ts ++ [.mark .semicolon]) >>= simple?).map Line.single =
      some (.single s) := by
    rw [upTo?_append]
    exact congrArg _ hs
  match ts with
  | .name n :: rest =>
    simp only [isStart, Bool.and_eq_true, decide_eq_true_eq] at h
    simpa only [List.cons_append, ofTokens?, h.1.2] using hu
  | .mark m :: rest =>
    have hm : m ≠ .closeBlock := of_decide_eq_true h
    cases m <;> first | exact hu | exact absurd rfl hm

-- A declaration begins with the name of a type.
theorem ofTokens?_variable (hv : v.isReadable) (ts : List Token) (hs : declared? v ts = some s) :
    ofTokens? (v.tokens ++ (ts ++ [.mark .semicolon])) = some (.single s) := by
  have hu : (upTo? .semicolon (v.tokens ++ (ts ++ [.mark .semicolon])) >>= simple?).map
      Line.single = some (.single s) := by
    rw [← List.append_assoc, upTo?_append]
    simp [simple?, Variable.read?_tokens hv, hs]
  obtain ⟨n, rest, hn, hk⟩ := v.exists_tokens hv
  rw [hn, List.cons_append] at hu ⊢
  simpa only [ofTokens?, hk] using hu

end Line

namespace Stmt

mutual

def isReadable : Stmt → Bool
  | .declare constant t x value      =>
    (Variable.mk constant t x).isReadable && value.all Expr.isReadable
  | .construct constant t x args     =>
    (Variable.mk constant t x).isReadable && (Expr.call (.name x) args).isReadable
  | .assign a b | .addAssign a b     => a.isReadable && Line.isStart a.tokens && b.isReadable
  | .evaluate e                      => e.isReadable && Line.isStart e.tokens
  | .leave value                     => value.all Expr.isReadable
  | .exitSwitch                      => true
  | .choose c yes no                 => c.isReadable && allReadable yes && allReadable no
  | .loop c body                     => c.isReadable && allReadable body
  | .count t x first limit body      =>
    (Variable.mk false t x).isReadable && first.isReadable &&
      (Expr.binary .less (.name x) limit).isReadable && allReadable body
  | .select e _ hit other            => e.isReadable && allReadable hit && allReadable other

def allReadable : List Stmt → Bool
  | []        => true
  | s :: rest => s.isReadable && allReadable rest

end

theorem allReadable_iff {body : List Stmt} : allReadable body ↔ ∀ s ∈ body, s.isReadable := by
  induction body
  case nil     => simp [allReadable]
  case cons hi => simp [allReadable, hi]

theorem allReadable_append (body body' : List Stmt) :
    allReadable (body ++ body') = (allReadable body && allReadable body') := by
  rw [Bool.eq_iff_iff, Bool.and_eq_true]
  simp only [allReadable_iff, List.forall_mem_append]

end Stmt

section Lines

variable (level : Nat) {v : Variable} {a b e : Expr} {args : List Expr}

theorem scan_assign (cs : List Char) :
    scan none ('=' :: ' ' :: cs) = .mark .assign :: scan none cs :=
  scan_mark (m := .assign) (by decide) (by decide) (apart_cons.mpr rfl)

theorem scan_addAssign (cs : List Char) :
    scan none ('+' :: '=' :: ' ' :: cs) = .mark .addAssign :: scan none cs :=
  scan_mark (m := .addAssign) (by decide) (by decide) (apart_cons.mpr rfl)

-- A word that is followed by a blank.
theorem scan_word {n : List Char} (h : isName n) (cs : List Char) :
    scan none (n ++ ' ' :: cs) = .name n :: scan none cs :=
  scan_name h (by simp; decide)

theorem scan_statement (h : e.isReadable) :
    scan none (e.render.toList ++ [';']) = e.tokens ++ [.mark .semicolon] :=
  Expr.scan_render [';'] e h (by simp [Expr.stopsAt, Expr.isEnd])

theorem scan_operand (h : e.isReadable) (cs : List Char) :
    scan none (e.render.toList ++ ' ' :: cs) = e.tokens ++ scan none cs :=
  Expr.scan_render (' ' :: cs) e h (by simp [Expr.stopsAt, Expr.isEnd])

theorem Line.read?_line {s : String} (ts : List Token) (h : scan none s.toList = ts)
    (hr : .remark ∉ ts) : read? (line level s) = ofTokens? ts := by
  rw [read?, lineTokens_line, lineTokens_eq ts h hr]

theorem read?_declare (h : v.isReadable) (value : Option Expr) (he : value.all Expr.isReadable) :
    Line.read? (line level (Stmt.constantMark v.constant ++ v.type.render ++ " " ++ v.name ++
        value.elim "" (fun e => " = " ++ e.render) ++ ";")) =
      some (.single (.declare v.constant v.type v.name value)) := by
  rw [← Variable.render]
  cases value
  case none =>
    have hs := Variable.scan_render h [';'] (by simp; decide)
    rw [Line.read?_line level (v.tokens ++ [.mark .semicolon])]
    · exact Line.ofTokens?_variable h [] rfl
    · simpa using hs
    · simp
  case some e =>
    have hs := Variable.scan_render h (" = ".toList ++ (e.render.toList ++ [';']))
      (by simp; decide)
    have hd : Line.declared? v (.mark .assign :: e.tokens) =
        some (.declare v.constant v.type v.name (some e)) := by
      rw [Line.declared?, Expr.ofTokens?_tokens he]
      rfl
    rw [Line.read?_line level (v.tokens ++ (.mark .assign :: e.tokens ++ [.mark .semicolon]))]
    · exact Line.ofTokens?_variable h _ hd
    · simpa [scan_assign, scan_statement he] using hs
    · simp

theorem read?_construct (h : v.isReadable) (ha : (Expr.call (.name v.name) args).isReadable) :
    Line.read? (line level (Stmt.constantMark v.constant ++ v.type.render ++ " " ++ v.name ++
        "(" ++ ", ".intercalate (Expr.renderArgs args) ++ ");")) =
      some (.single (.construct v.constant v.type v.name args)) := by
  rw [← Variable.render]
  have hr := ha
  simp only [Expr.isReadable, Bool.and_eq_true] at hr
  have hs := Variable.scan_render h ('(' ::
    ((", ".intercalate (Expr.renderArgs args)).toList ++ [')', ';'])) (by simp; decide)
  have hd : Line.declared? v (.mark .openGroup :: (Expr.argTokens args ++ [.mark .closeGroup])) =
      some (.construct v.constant v.type v.name args) := by
    have ht := Expr.ofTokens?_tokens ha
    rw [Expr.tokens, Expr.tokens, List.singleton_append] at ht
    rw [Line.declared?]
    · simp [ht]
    · simp
    · simp
  rw [Line.read?_line level (v.tokens ++
    (.mark .openGroup :: (Expr.argTokens args ++ [.mark .closeGroup]) ++ [.mark .semicolon]))]
  · exact Line.ofTokens?_variable h _ hd
  · rw [scan_openGroup, Expr.scan_args _ (by simp [Expr.isEnd]) _ hr.2, scan_closeGroup,
      scan_semicolon] at hs
    simpa using hs
  · simp

theorem read?_assign (ha : a.isReadable) (hs : Line.isStart a.tokens) (hb : b.isReadable) :
    Line.read? (line level (a.render ++ " = " ++ b.render ++ ";")) =
      some (.single (.assign a b)) := by
  have hn : Line.simple? (a.tokens ++ .mark .assign :: b.tokens) = some (.assign a b) := by
    rw [Line.simple?, Line.read?_variable_of_isStart (Line.isStart_append hs (by decide) _),
      splitAt?_append (Expr.not_mem_tokens rfl a)]
    simp [Expr.ofTokens?_tokens ha, Expr.ofTokens?_tokens hb]
  rw [Line.read?_line level ((a.tokens ++ .mark .assign :: b.tokens) ++ [.mark .semicolon])]
  · exact Line.ofTokens?_of_isStart (Line.isStart_append hs (by decide) _) hn
  · simpa [scan_assign, scan_statement hb] using
      scan_operand ha ('=' :: ' ' :: (b.render.toList ++ [';']))
  · simp

theorem read?_addAssign (ha : a.isReadable) (hs : Line.isStart a.tokens) (hb : b.isReadable) :
    Line.read? (line level (a.render ++ " += " ++ b.render ++ ";")) =
      some (.single (.addAssign a b)) := by
  have hn : Line.simple? (a.tokens ++ .mark .addAssign :: b.tokens) = some (.addAssign a b) := by
    rw [Line.simple?, Line.read?_variable_of_isStart (Line.isStart_append hs (by decide) _),
      splitAt?_append (Expr.not_mem_tokens rfl a), splitAt?_eq_none]
    · simp [Expr.ofTokens?_tokens ha, Expr.ofTokens?_tokens hb]
    · simp [Expr.not_mem_tokens (t := .mark .assign) rfl]
  rw [Line.read?_line level ((a.tokens ++ .mark .addAssign :: b.tokens) ++ [.mark .semicolon])]
  · exact Line.ofTokens?_of_isStart (Line.isStart_append hs (by decide) _) hn
  · simpa [scan_addAssign, scan_statement hb] using
      scan_operand ha ('+' :: '=' :: ' ' :: (b.render.toList ++ [';']))
  · simp

theorem read?_evaluate (he : e.isReadable) (hs : Line.isStart e.tokens) :
    Line.read? (line level (e.render ++ ";")) = some (.single (.evaluate e)) := by
  have hn : Line.simple? e.tokens = some (.evaluate e) := by
    rw [Line.simple?, Line.read?_variable_of_isStart hs,
      splitAt?_eq_none (Expr.not_mem_tokens rfl e), splitAt?_eq_none (Expr.not_mem_tokens rfl e)]
    simp [Expr.ofTokens?_tokens he]
  rw [Line.read?_line level (e.tokens ++ [.mark .semicolon])]
  · exact Line.ofTokens?_of_isStart hs hn
  · simpa using scan_statement he
  · simp

theorem read?_leave (value : Option Expr) (he : value.all Expr.isReadable) :
    Line.read? (line level ("return" ++ value.elim "" (fun e => " " ++ e.render) ++ ";")) =
      some (.single (.leave value)) := by
  cases value
  case none   =>
    rw [Line.read?_line level ([.name "return".toList, .mark .semicolon])]
    · rfl
    · rfl
    · decide
  case some e =>
    have hu := upTo?_append .semicolon e.tokens
    have ht : Expr.ofTokens? e.tokens = some e := Expr.ofTokens?_tokens he
    rw [Line.read?_line level (.name "return".toList :: (e.tokens ++ [.mark .semicolon]))]
    · show Line.ofKeyword? (e.tokens ++ [.mark .semicolon]) .leave = _
      obtain ⟨t, ts, hn⟩ := List.exists_cons_of_ne_nil e.tokens_ne_nil
      rw [hn] at hu ht ⊢
      simp only [Line.ofKeyword?, hu, Option.bind_eq_bind, Option.bind_some, ht, Option.map_some]
    · simpa [scan_statement he] using scan_word (n := "return".toList) (by decide)
        (e.render.toList ++ [';'])
    · simp

theorem read?_exitSwitch : Line.read? (line level "break;") = some (.single .exitSwitch) := by
  rw [Line.read?_line level ([.name "break".toList, .mark .semicolon]) rfl (by decide)]
  rfl

-- A condition behind a word, before a block.
theorem scan_condition {n : List Char} (hn : isName n) (he : e.isReadable) :
    scan none (n ++ ' ' :: '(' :: (e.render.toList ++ [')', ' ', '\x7b'])) =
      .name n :: ((Expr.parens e).tokens ++ [.mark .openBlock]) := by
  have hs := Expr.scan_render [')', ' ', '\x7b'] e he (by simp [Expr.stopsAt, Expr.isEnd])
  rw [scan_word hn, scan_openGroup, hs]
  simp [Expr.tokens]

theorem condition?_tokens (he : e.isReadable) :
    Line.condition? ((Expr.parens e).tokens ++ [.mark .openBlock]) = some e := by
  have ht : Expr.ofTokens? (Expr.parens e).tokens = some (.parens e) := Expr.ofTokens?_tokens he
  rw [Line.condition?, upTo?_append]
  simp [ht]

theorem read?_choice (he : e.isReadable) :
    Line.read? (line level ("" ++ "if (" ++ e.render ++ ") \x7b")) =
      some (.opening (.choice e)) := by
  have hs := scan_condition (n := "if".toList) (by decide) he
  rw [Line.read?_line level _ (by simpa using hs) (by simp)]
  exact congrArg (Option.map _) (condition?_tokens he)

theorem read?_elseChoice (he : e.isReadable) :
    Line.read? (line level ("else " ++ "if (" ++ e.render ++ ") \x7b")) =
      some (.opening (.elseChoice e)) := by
  have hs := scan_word (n := "else".toList) (by decide)
    ("if".toList ++ ' ' :: '(' :: (e.render.toList ++ [')', ' ', '\x7b']))
  rw [scan_condition (by decide) he] at hs
  rw [Line.read?_line level _ (by simpa using hs) (by simp)]
  exact congrArg (Option.map _) (condition?_tokens he)

theorem read?_loop (he : e.isReadable) :
    Line.read? (line level ("while (" ++ e.render ++ ") \x7b")) = some (.opening (.loop e)) := by
  have hs := scan_condition (n := "while".toList) (by decide) he
  rw [Line.read?_line level _ (by simpa using hs) (by simp)]
  exact congrArg (Option.map _) (condition?_tokens he)

theorem read?_select (he : e.isReadable) :
    Line.read? (line level ("switch (" ++ e.render ++ ") \x7b")) =
      some (.opening (.labels e [])) := by
  have hs := scan_condition (n := "switch".toList) (by decide) he
  rw [Line.read?_line level _ (by simpa using hs) (by simp)]
  exact congrArg (Option.map _) (condition?_tokens he)

theorem read?_otherwise : Line.read? (line level "else \x7b") = some (.opening .otherwise) := by
  rw [Line.read?_line level ([.name "else".toList, .mark .openBlock]) rfl (by decide)]
  rfl

theorem read?_closing : Line.read? (line level "\x7d") = some .closing := by
  rw [Line.read?_line level ([.mark .closeBlock]) rfl (by decide)]
  rfl

theorem read?_default : Line.read? (line level "default:") = some .default := by
  rw [Line.read?_line level ([.name "default:".toList]) rfl (by decide)]
  rfl

theorem read?_label (n : Nat) :
    Line.read? (line level ("case 0x" ++ String.ofList (hexDigits 4 n) ++ ":")) =
      some (.label n) := by
  have hs := scan_word (n := "case".toList) (by decide) ('0' :: 'x' :: hexDigits 4 n ++ [':'])
  have hc : scan none [':'] = [.mark .colon] := rfl
  rw [scan_number (single?_hex 4 n) (by simp; decide), hc] at hs
  rw [Line.read?_line level ([.name "case".toList, .number ('0' :: 'x' :: hexDigits 4 n),
    .mark .colon])]
  · show Line.ofKeyword? [.number _, .mark .colon] .label = _
    rw [Line.ofKeyword?, Expr.ofNumber?_hex]
  · simpa using hs
  · simp

section Count

variable {t : TypeName} {x : String}

-- What ends the head of a loop that counts.
def countEnd (x : String) : List Token :=
  [.mark .increment, .name x.toList, .mark .closeGroup, .mark .openBlock]

theorem scan_countEnd (hx : isName x.toList) :
    scan none ('+' :: '+' :: (x.toList ++ [')', ' ', '\x7b'])) = countEnd x := by
  have hh : x.toList.head?.any isWordChar := by
    simp only [isName, Bool.and_eq_true] at hx
    exact hx.1.1
  have hi := scan_mark (m := .increment) (by decide) (by decide)
    (Expr.apart_of_head hh [')', ' ', '\x7b'])
  rw [scan_name hx (by simp; decide)] at hi
  simpa [Mark.chars, countEnd] using hi

theorem count?_tokens (hv : (Variable.mk false t x).isReadable) (ha : a.isReadable)
    (hb : (Expr.binary .less (.name x) b).isReadable) :
    Line.count? (.mark .openGroup :: ((Variable.mk false t x).tokens ++ (.mark .assign ::
      (a.tokens ++ .mark .semicolon :: ((Expr.binary .less (.name x) b).tokens ++
        .mark .semicolon :: countEnd x))))) = some (.count t x a b) := by
  have hf : .mark .semicolon ∉ .mark .openGroup ::
      ((Variable.mk false t x).tokens ++ .mark .assign :: a.tokens) := by
    simp [Variable.not_mem_tokens, Variable.isPart, Expr.not_mem_tokens, Expr.isPart]
  have h₁ := splitAt?_append hf
    ((Expr.binary .less (.name x) b).tokens ++ .mark .semicolon :: countEnd x)
  have h₂ := splitAt?_append (m := .semicolon)
    (Expr.not_mem_tokens rfl (.binary .less (.name x) b)) (countEnd x)
  simp only [List.cons_append, List.append_assoc] at h₁
  simp only [Line.count?, h₁, h₂, Option.bind_eq_bind, Option.bind_some]
  simp [countEnd, Variable.read?_tokens hv, Expr.ofTokens?_tokens ha, Expr.ofTokens?_tokens hb]

theorem read?_count (hv : (Variable.mk false t x).isReadable) (ha : a.isReadable)
    (hb : (Expr.binary .less (.name x) b).isReadable) :
    Line.read? (line level ("for (" ++ t.render ++ " " ++ x ++ " = " ++ a.render ++ "; " ++ x ++
      " < " ++ b.render ++ "; ++" ++ x ++ ") \x7b")) = some (.opening (.count t x a b)) := by
  have hx : isName x.toList := by
    simp only [Variable.isReadable, Bool.and_eq_true] at hv
    exact hv.1.2
  have hs := scan_word (n := "for".toList) (by decide)
    ('(' :: ((Variable.mk false t x).render.toList ++ (' ' :: '=' :: ' ' :: (a.render.toList ++
      ';' :: ' ' :: ((Expr.binary .less (.name x) b).render.toList ++ ';' :: ' ' :: '+' :: '+' ::
        (x.toList ++ [')', ' ', '\x7b']))))))
  rw [scan_openGroup, Variable.scan_render hv _ (by simp; decide), scan_blank, scan_assign,
    Expr.scan_render _ a ha (by simp [Expr.stopsAt, Expr.isEnd]), scan_semicolon, scan_blank,
    Expr.scan_render _ _ hb (by simp [Expr.stopsAt, Expr.isEnd]), scan_semicolon, scan_blank,
    scan_countEnd hx] at hs
  rw [Line.read?_line level _ (by simpa [Variable.render, Stmt.constantMark, Expr.render,
    BinaryOperator.render] using hs) (by simp [countEnd])]
  exact congrArg (Option.map _) (count?_tokens hv ha hb)

end Count

end Lines

namespace Body

-- What lines in the middle of a function make of it.
def run (b : Body) (ls : List String) : Option Body :=
  ls.foldlM (fun b l => Line.read? l >>= b.step) b

variable {b c d : Body} {done before : List Stmt} {outer : List (Block × List Stmt)} {l : String}
  {ls ls' : List String} {block : Block} {s : Stmt}

theorem run_append (h : b.run ls = some c) : b.run (ls ++ ls') = c.run ls' :=
  foldlM_append_of_eq h

theorem run_cons (h : b.run [l] = some c) : b.run (l :: ls) = c.run ls :=
  run_append h

theorem run_single (h : Line.read? l = some (.single s)) :
    run ⟨done, outer⟩ [l] = some ⟨done ++ [s], outer⟩ := by
  simp [run, h, step]

theorem run_opening (h : Line.read? l = some (.opening block)) :
    run ⟨done, outer⟩ [l] = some ⟨[], (block, done) :: outer⟩ := by
  simp [run, h, step]

theorem run_closing (level : Nat) (h : close before done block = some after) :
    run ⟨done, (block, before) :: outer⟩ [line level "\x7d"] = some ⟨after, outer⟩ := by
  simp [run, read?_closing, step, h]

-- A block with what is before and after it in its lines.
theorem run_block (level : Nat) {body : List Stmt} (hl : Line.read? l = some (.opening block))
    (hb : run ⟨[], (block, done) :: outer⟩ ls = some ⟨body, (block, done) :: outer⟩)
    (hc : close done body block = some after) :
    run ⟨done, outer⟩ ([l] ++ ls ++ [line level "\x7d"]) = some ⟨after, outer⟩ := by
  rw [List.append_assoc, run_append (run_opening hl), run_append hb, run_closing level hc]

end Body

-- A choice that the other side of a choice can still be put into, at its end.
structure Hole (fill : List Stmt → Stmt) : Prop where
  attach : ∀ no, (fill []).attach no = some (fill no)
  inner  : ∀ {s s' no}, s.attach no = some s' → (fill [s]).attach no = some (fill [s'])

namespace Hole

variable {fill : List Stmt → Stmt}

theorem choose (c : Expr) (yes : List Stmt) : Hole (.choose c yes) where
  attach _  := rfl
  inner h   := by rw [Stmt.attach, h]; rfl

theorem deeper (h : Hole fill) (c : Expr) (yes : List Stmt) :
    Hole fun no => fill [.choose c yes no] where
  attach no := h.inner ((choose c yes).attach no)
  inner hs  := h.inner ((choose c yes).inner hs)

theorem attachLast (h : Hole fill) (before no : List Stmt) :
    attachLast (before ++ [fill []]) no = some (before ++ [fill no]) := by
  simp [Source.attachLast, h.attach no]

end Hole

namespace Stmt

open Body

variable {before done : List Stmt} {outer : List (Block × List Stmt)}

theorem elseLines_eq (level : Nat) {s : Stmt} {rest : List Stmt}
    (h : (s.isChoice && rest.isEmpty) = false) :
    elseLines level (s :: rest) =
      [line level "else \x7b"] ++ blockLines (level + 1) (s :: rest) ++ [line level "\x7d"] := by
  rw [elseLines, if_neg (Bool.eq_false_iff.mp h)]
  simp [blockLines]

theorem run_labels (level : Nat) (e : Expr) (labels rest : List Nat) :
    run ⟨[], (.labels e labels, before) :: outer⟩
      (rest.map fun n => line level ("case 0x" ++ String.ofList (hexDigits 4 n) ++ ":")) =
        some ⟨[], (.labels e (labels ++ rest), before) :: outer⟩ := by
  induction rest generalizing labels
  case nil          => simp [run]
  case cons n rest hi =>
    have hn : run ⟨[], (.labels e labels, before) :: outer⟩
        [line level ("case 0x" ++ String.ofList (hexDigits 4 n) ++ ":")] =
          some ⟨[], (.labels e (labels ++ [n]), before) :: outer⟩ := by
      simp [run, read?_label, step]
    refine (run_cons hn).trans ?_
    simpa using hi (labels ++ [n])

theorem run_default (level : Nat) (e : Expr) (labels : List Nat) (hit : List Stmt) :
    run ⟨hit, (.labels e labels, before) :: outer⟩ [line level "default:"] =
      some ⟨[], (.default e labels hit, before) :: outer⟩ := by
  simp [run, read?_default, step]

mutual

theorem run_linesAfter : (s : Stmt) → s.isReadable → ∀ level done outer,
    run ⟨done, outer⟩ (s.linesAfter "" level) = some ⟨done ++ [s], outer⟩
  | .declare constant t x value, h, level, _, _ => by
    simp only [isReadable, Bool.and_eq_true] at h
    have hl := read?_declare level h.1 value h.2
    exact run_single hl
  | .construct constant t x args, h, level, _, _ => by
    simp only [isReadable, Bool.and_eq_true] at h
    have hl := read?_construct level h.1 h.2
    exact run_single hl
  | .assign a b, h, level, _, _ => by
    simp only [isReadable, Bool.and_eq_true] at h
    exact run_single (read?_assign level h.1.1 h.1.2 h.2)
  | .addAssign a b, h, level, _, _ => by
    simp only [isReadable, Bool.and_eq_true] at h
    exact run_single (read?_addAssign level h.1.1 h.1.2 h.2)
  | .evaluate e, h, level, _, _ => by
    simp only [isReadable, Bool.and_eq_true] at h
    exact run_single (read?_evaluate level h.1 h.2)
  | .leave value, h, level, _, _ => run_single (read?_leave level value h)
  | .exitSwitch, _, level, _, _ => run_single (read?_exitSwitch level)
  | .choose c yes no, h, level, done, outer => by
    simp only [isReadable, Bool.and_eq_true] at h
    have hy := run_blockLines yes h.1.2 (level + 1) [] ((.choice c, done) :: outer)
    have hb := run_block level (read?_choice level h.1.1) hy rfl
    exact (run_append hb).trans <| run_elseLines no h.2 (.choose c yes) level done outer
  | .loop c body, h, level, done, outer => by
    simp only [isReadable, Bool.and_eq_true] at h
    have hb := run_blockLines body h.2 (level + 1) [] ((.loop c, done) :: outer)
    exact run_block level (read?_loop level h.1) hb rfl
  | .count t x first limit body, h, level, done, outer => by
    simp only [isReadable, Bool.and_eq_true] at h
    have hb := run_blockLines body h.2 (level + 1) [] ((.count t x first limit, done) :: outer)
    exact run_block level (read?_count level h.1.1.1 h.1.1.2 h.1.2) hb rfl
  | .select e labels hit other, h, level, done, outer => by
    simp only [isReadable, Bool.and_eq_true] at h
    have hh := run_blockLines hit h.1.2 (level + 2) [] ((.labels e labels, done) :: outer)
    have ho := run_blockLines other h.2 (level + 2) [] ((.default e labels hit, done) :: outer)
    simp only [linesAfter, List.append_assoc]
    rw [run_append (run_opening (read?_select level h.1.1)),
      run_append (run_labels (level + 1) e [] labels), List.nil_append, run_append hh,
      List.nil_append, run_append (run_default (level + 1) e labels hit), run_append ho]
    exact run_closing level rfl

theorem run_blockLines : (body : List Stmt) → allReadable body → ∀ level done outer,
    run ⟨done, outer⟩ (blockLines level body) = some ⟨done ++ body, outer⟩
  | [], _, _, done, outer => by simp [blockLines, run]
  | s :: rest, h, level, done, outer => by
    have ⟨hs, hr⟩ := Bool.and_eq_true_iff.mp h
    rw [blockLines, run_append (run_linesAfter s hs level done outer),
      run_blockLines rest hr level (done ++ [s]) outer]
    simp

theorem run_elseLines {fill : List Stmt → Stmt} : (no : List Stmt) → allReadable no →
    Hole fill → ∀ level before outer,
    run ⟨before ++ [fill []], outer⟩ (elseLines level no) = some ⟨before ++ [fill no], outer⟩
  | [], _, _, _, _, _ => rfl
  | s :: rest, h, hf, level, before, outer => by
    have ⟨hs, hr⟩ := Bool.and_eq_true_iff.mp h
    cases hc : s.isChoice && rest.isEmpty
    case true  =>
      have ⟨hs', he⟩ := Bool.and_eq_true_iff.mp hc
      obtain rfl := List.isEmpty_iff.mp he
      rw [elseLines, if_pos hc]
      exact run_elseLine s hs hs' hf level before outer
    case false =>
      have hb := run_linesAfter s hs (level + 1) [] ((.otherwise, before ++ [fill []]) :: outer)
      have hb' := run_blockLines rest hr (level + 1) [s]
        ((.otherwise, before ++ [fill []]) :: outer)
      rw [elseLines_eq level hc, blockLines]
      exact run_block level (read?_otherwise level) ((run_append hb).trans hb')
        (hf.attachLast before _)

theorem run_elseLine {fill : List Stmt → Stmt} : (s : Stmt) → s.isReadable → s.isChoice →
    Hole fill → ∀ level before outer,
    run ⟨before ++ [fill []], outer⟩ (s.linesAfter "else " level) =
      some ⟨before ++ [fill [s]], outer⟩
  | .choose c yes no, h, _, hf, level, before, outer => by
    simp only [isReadable, Bool.and_eq_true] at h
    have hy := run_blockLines yes h.1.2 (level + 1) []
      ((.elseChoice c, before ++ [fill []]) :: outer)
    have hb := run_block level (read?_elseChoice level h.1.1) hy (hf.attachLast before _)
    exact (run_append hb).trans <| run_elseLines no h.2 (hf.deeper c yes) level before outer

end

end Stmt

end AddonBinding.Source
