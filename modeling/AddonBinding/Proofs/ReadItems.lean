import AddonBinding.Proofs.ReadStatements

-- Items are read back from their lines, without their comments.

namespace AddonBinding.Source

open Token

namespace Reading

-- What lines make of what is read before them.
def run (r : Reading) (ls : List String) : Option Reading :=
  ls.foldlM (fun r l => r.step (lineTokens l)) r

variable {r r' : Reading} {l : String} {ls ls' : List String} {items : List Item} {b b' : Body}
  {done : List Stmt}

theorem run_append (h : r.run ls = some r') : r.run (ls ++ ls') = r'.run ls' :=
  foldlM_append_of_eq h

theorem run_cons (h : r.step (lineTokens l) = some r') : r.run (l :: ls) = r'.run ls := by
  rw [run, List.foldlM_cons, h]
  rfl

theorem run_hidden (h : ∀ l ∈ ls, lineTokens l = []) : r.run ls = some r := by
  induction ls
  case nil          => rfl
  case cons l ls hi =>
    obtain ⟨hl, h⟩ := List.forall_mem_cons.mp h
    exact (run_cons (by rw [hl]; rfl)).trans (hi h)

theorem run_blank (r : Reading) (ls : List String) : r.run ("" :: ls) = r.run ls :=
  run_cons rfl

-- Between groups of lines there are blank lines, which change nothing.
theorem run_spaced {α : Type} {l : List α} {lines : α → List String} (place : List α → Reading)
    (h : ∀ done, ∀ a ∈ l, run (place done) (lines a) = some (place (done ++ [a])))
    (done : List α) : run (place done) (spaced (l.map lines)) = some (place (done ++ l)) := by
  induction l generalizing done
  case nil         => simp [spaced, run]
  case cons a l hi =>
    obtain ⟨ha, h⟩ : (∀ done, run (place done) (lines a) = some (place (done ++ [a]))) ∧ _ :=
      ⟨fun done => h done a List.mem_cons_self,
        fun done b hb => h done b (List.mem_cons_of_mem a hb)⟩
    have hl := hi h (done ++ [a])
    cases l
    case nil      => simpa [spaced] using ha done
    case cons b l =>
      refine (run_append (ha done)).trans <| (run_blank _ _).trans ?_
      simpa using hl

section Bodies

variable (inside : Body → Reading) (after : List Stmt → Reading)
  (hp : ∀ body ts, ts ≠ [] → step (inside body) ts = inBody inside after body ts)
include hp

theorem step_inside (h : (Line.read? l >>= b.step) = some b') :
    step (inside b) (lineTokens l) = some (inside b') := by
  obtain ⟨line, hl, hb⟩ := Option.bind_eq_some_iff.mp h
  have ht : lineTokens l ≠ [] := by
    intro ht
    rw [Line.read?, ht] at hl
    contradiction
  have hl : Line.ofTokens? (lineTokens l) = some line := hl
  rw [hp _ _ ht, inBody, hl]
  simp only [Option.bind_eq_bind, Option.bind_some]
  split
  · simp [Body.step] at hb
  · rw [hb]
    rfl

theorem run_inside (h : b.run ls = some b') : run (inside b) ls = some (inside b') := by
  induction ls generalizing b
  case nil => cases h; rfl
  case cons l ls hi =>
    obtain ⟨c, hc, h⟩ := Option.bind_eq_some_iff.mp h
    exact (run_cons (step_inside inside after hp hc)).trans (hi h)

theorem run_body {body : List Stmt} (h : Stmt.allReadable body) (level : Nat) :
    run (inside {}) (Stmt.blockLines level body ++ ["\x7d"]) = some (after body) := by
  refine (run_append (run_inside inside after hp (Stmt.run_blockLines body h level [] []))).trans ?_
  exact run_cons ((hp _ _ (by decide)).trans rfl)

end Bodies

end Reading

-- A name without qualification.
def isWord (n : List Char) : Bool :=
  n.head?.any (fun c => isWordChar c && !c.isDigit) && n.all isWordChar

section Words

variable {n m : List Char}

-- A name goes on with qualifications and with what a template is applied to.
theorem isName_append (h : isWord n) (hm : m.all isNameChar)
    (hb : m.count '<' ≤ m.count '>') : isName (n ++ m) := by
  simp only [isWord, Bool.and_eq_true, List.all_eq_true] at h
  obtain ⟨c, n, rfl⟩ : ∃ c cs, n = c :: cs := by
    cases n
    case nil  => exact absurd h.1 Bool.false_ne_true
    case cons => exact ⟨_, _, rfl⟩
  have hc : isWordChar c ∧ c.isDigit = false := by simpa using h.1
  have hn (d : Char) (hd : isWordChar d = false) : (c :: n).count d = 0 :=
    List.count_eq_zero.mpr fun hm => Bool.eq_false_iff.mp hd (h.2 d hm)
  refine isName_of_isNameChar (by simpa using hc) (by simp) ?_ ?_
  · refine List.forall_mem_append.mpr ⟨fun d hd => ?_, List.all_eq_true.mp hm⟩
    simp [isNameChar, h.2 d hd]
  · rw [List.count_append, List.count_append, hn '<' (by decide), hn '>' (by decide)]
    omega

theorem isName_of_isWord (h : isWord n) : isName n := by
  simpa using isName_append (m := []) h (by simp) (by simp)

theorem isName_qualified (h : isWord n) (hm : isWord m) : isName (n ++ ("::".toList ++ m)) := by
  simp only [isWord, Bool.and_eq_true, List.all_eq_true] at hm
  have hc : ('<' : Char) ∉ m := fun hc => absurd (hm.2 '<' hc) (by decide)
  refine isName_append h ?_ ?_
  · rw [List.all_append, Bool.and_eq_true, List.all_eq_true (l := m)]
    exact ⟨by decide, fun c hc => by simp [isNameChar, hm.2 c hc]⟩
  · simp [List.count_eq_zero.mpr hc]

end Words

namespace Function

def parameter (p : TypeName × String) : Variable :=
  ⟨false, p.1, p.2⟩

def isReadable (f : Function) : Bool :=
  (Variable.mk false f.result f.name).isReadable && !f.parameters.isEmpty &&
    f.parameters.all (fun p => (parameter p).isReadable) && Stmt.allReadable f.body

variable {p : TypeName × String} {ps : List (TypeName × String)}

def parameterTokens (ps : List (TypeName × String)) : List Token :=
  [Token.mark .comma].intercalate (ps.map fun p => (parameter p).tokens)

theorem scan_parameters (h : (parameter p).isReadable) (hs : ∀ p ∈ ps, (parameter p).isReadable)
    (cs : List Char) :
    scan none ((", ".intercalate ((p :: ps).map fun p => (parameter p).render)).toList ++
        ')' :: cs) = parameterTokens (p :: ps) ++ .mark .closeGroup :: scan none cs := by
  unfold parameterTokens
  induction ps generalizing p
  case nil =>
    simpa using Variable.scan_render h (')' :: cs) (by simp; decide)
  case cons q ps hi =>
    obtain ⟨hq, hs⟩ := List.forall_mem_cons.mp hs
    have hv := Variable.scan_render h (',' :: ' ' ::
      ((", ".intercalate ((q :: ps).map fun p => (parameter p).render)).toList ++ ')' :: cs))
      (by simp; decide)
    rw [scan_comma, scan_blank, hi hq hs] at hv
    simpa using hv

theorem parameters?_tokens (hn : ps ≠ []) (hs : ∀ p ∈ ps, (parameter p).isReadable) :
    Reading.parameters? (parameterTokens ps) = some ps := by
  have hm : ∀ ts ∈ ps.map (fun p => (parameter p).tokens), Token.mark .comma ∉ ts :=
    List.forall_mem_map.mpr fun p _ => Variable.not_mem_tokens rfl _
  rw [Reading.parameters?, parameterTokens, List.splitOn_intercalate _ hm (by simpa using hn)]
  clear hn hm
  induction ps
  case nil          => rfl
  case cons p ps hi =>
    obtain ⟨hp, hs⟩ := List.forall_mem_cons.mp hs
    have hr := Variable.read?_tokens hp []
    rw [List.append_nil] at hr
    rw [List.map_cons, List.mapM_cons, hi hs, hr]
    rfl

theorem remark_not_mem_parameterTokens (ps : List (TypeName × String)) :
    .remark ∉ parameterTokens ps := by
  unfold parameterTokens
  induction ps
  case nil          => simp
  case cons p ps hi => cases ps <;> simp_all

theorem function?_heading {f : Function} (h : f.isReadable) :
    Reading.function? (lineTokens (f.head ++ " \x7b")) = some { f with body := [] } := by
  obtain ⟨t, x, ps, body⟩ := f
  simp only [isReadable, Bool.and_eq_true, List.all_eq_true, Bool.not_eq_true'] at h
  obtain ⟨p, ps, rfl⟩ := List.exists_cons_of_ne_nil (List.isEmpty_eq_false_iff.mp h.1.1.2)
  obtain ⟨hp, hps⟩ := List.forall_mem_cons.mp h.1.2
  have hr := scan_parameters hp hps [' ', '\x7b']
  have hv := Variable.scan_render h.1.1.1 ('(' ::
    ((", ".intercalate ((p :: ps).map fun p => (parameter p).render)).toList ++
      [')', ' ', '\x7b'])) (by simp; decide)
  have hs := scan_word (n := "inline".toList) (by decide)
    ((Variable.mk false t x).render.toList ++ '(' ::
      ((", ".intercalate ((p :: ps).map fun p => (parameter p).render)).toList ++
        [')', ' ', '\x7b']))
  rw [hv, scan_openGroup, hr] at hs
  rw [lineTokens_eq (.name "inline".toList :: ((Variable.mk false t x).tokens ++
    .mark .openGroup :: (parameterTokens (p :: ps) ++ [.mark .closeGroup, .mark .openBlock])))]
  · have ho := upTo?_append .openBlock (parameterTokens (p :: ps) ++ [.mark .closeGroup])
    rw [List.append_assoc, List.singleton_append] at ho
    simp only [Reading.function?, Variable.read?_tokens h.1.1.1, ho, upTo?_append,
      parameters?_tokens (List.cons_ne_nil p ps) h.1.2, Option.bind_eq_bind, Option.bind_some,
      if_true]
    rfl
  · simpa [Variable.render, parameter, Stmt.constantMark, head] using hs
  · simp [remark_not_mem_parameterTokens]

end Function

namespace Reading

variable {items : List Item}

theorem run_function {f : Function} (h : f.isReadable) (fs : List Function) :
    run ⟨items, .helpers fs⟩ f.lines = some ⟨items, .helpers (fs ++ [f])⟩ := by
  have hh := Function.function?_heading h
  simp only [Function.isReadable, Bool.and_eq_true] at h
  have hs : step ⟨items, .helpers fs⟩ (lineTokens (f.head ++ " \x7b")) =
      some ⟨items, .function fs { f with body := [] } {}⟩ := by
    generalize lineTokens (f.head ++ " \x7b") = ts at hh
    have h₁ : ts ≠ [] := by rintro rfl; cases hh
    have h₂ : ts ≠ [.mark .closeBlock] := by rintro rfl; cases hh
    rw [step, if_neg h₁]
    simp only [if_neg h₂, hh, Option.map_some]
  rw [Function.lines, List.append_assoc]
  refine (run_cons hs).trans ?_
  exact run_body (fun b => ⟨items, .function fs { f with body := [] } b⟩)
    (fun body => ⟨items, .helpers (fs ++ [{ f with body }])⟩)
    (fun _ _ hn => by rw [step, if_neg hn]) h.2 1

-- What is read at the left edge.
theorem step_outside {ts : List Token} {r : Reading} (h : outside items ts = some r)
    (hn : ts ≠ []) : step ⟨items, .outside⟩ ts = some r := by
  rw [step, if_neg hn]
  exact h

end Reading

theorem scan_entryHead (k : EntryKind) {n : List Char} (h : isName n) (cs : List Char) :
    scan none (k.macroName.toList ++ '(' :: (n ++ ')' :: cs)) =
      .name k.macroName.toList :: .mark .openGroup :: .name n :: .mark .closeGroup ::
        scan none cs := by
  have hk : isName k.macroName.toList := by cases k <;> decide
  rw [scan_name hk (by simp; decide), scan_openGroup, scan_name h (by simp; decide),
    scan_closeGroup]

theorem entryKind?_macroName (k : EntryKind) : Reading.entryKind? k.macroName.toList = some k := by
  cases k <;> decide

namespace EntryPoint

def isReadable (e : EntryPoint) : Bool :=
  isName e.symbol.toList && Stmt.allReadable e.body

-- What is left of an entry point without its comment.
def bare (e : EntryPoint) : EntryPoint :=
  { e with comment := none }

end EntryPoint

section Remarks

variable {s : String} {cs : List Char}

theorem lineTokens_remark (h : scan none s.toList = scan (some .remark) cs) :
    lineTokens s = [] := by
  rw [lineTokens, h, scan_remark]
  rfl

theorem lineTokens_comment (h : s.toList = '/' :: '/' :: cs) : lineTokens s = [] :=
  lineTokens_remark (congrArg (scan none) h)

theorem lineTokens_directive (h : s.toList = '#' :: cs) : lineTokens s = [] :=
  lineTokens_remark (congrArg (scan none) h)

end Remarks

namespace Reading

variable {items : List Item}

theorem run_entryPoint {e : EntryPoint} (h : e.isReadable) :
    run ⟨items, .outside⟩ e.lines = some ⟨items ++ [.entryPoint e.bare], .outside⟩ := by
  simp only [EntryPoint.isReadable, Bool.and_eq_true] at h
  have hs : step ⟨items, .outside⟩ (lineTokens (e.kind.head e.symbol ++ " \x7b")) =
      some ⟨items, .entry ⟨none, e.kind, e.symbol, []⟩ {}⟩ := by
    have ht := scan_entryHead e.kind h.1 [' ', '\x7b']
    rw [scan_blank, scan_openBlock] at ht
    rw [lineTokens_eq _ (by simpa [EntryKind.head] using ht) (by simp)]
    refine step_outside ?_ (by simp)
    simp [outside, isHelperNamespace, class?, entryHead?, entryKind?_macroName]
  have hc : run ⟨items, .outside⟩ (e.comment.map commentLine).toList = some ⟨items, .outside⟩ := by
    refine run_hidden fun l hl => ?_
    obtain ⟨s, _, rfl⟩ := Option.map_eq_some_iff.mp (Option.mem_toList.mp hl)
    exact lineTokens_comment (by simp [commentLine]; rfl)
  simp only [EntryPoint.lines, List.append_assoc]
  refine (run_append hc).trans <| (run_cons hs).trans ?_
  exact run_body (fun b => ⟨items, .entry ⟨none, e.kind, e.symbol, []⟩ b⟩)
    (fun body => ⟨items ++ [.entryPoint ⟨none, e.kind, e.symbol, body⟩], .outside⟩)
    (fun _ _ hn => by rw [step, if_neg hn]) h.2 1

end Reading

namespace ClassDeclaration

def isReadable (c : ClassDeclaration) : Bool :=
  isName c.name.toList && c.entries.all (fun d => isName d.name.toList) &&
    c.fields.all fun f => (Variable.mk false f.type f.name).isReadable

theorem lines_eq (c : ClassDeclaration) : c.lines =
    ["class " ++ c.name ++ " : public Nan::ObjectWrap \x7b", " public:",
      line 1 (EntryDeclaration.mk .moduleInit "Init").render, "",
      " private:", line 1 (c.name ++ "();"), line 1 ("~" ++ c.name ++ "();"), ""] ++
    (c.entries.map (fun d => line 1 d.render) ++
      ((if c.fields.isEmpty then [] else "" :: c.fields.map fun f => line 1 f.render) ++
        ["\x7d;"])) := by
  rw [lines]
  split <;> simp [spaced]

end ClassDeclaration

namespace Reading

variable {items : List Item} {isPrivate : Bool} {c : ClassDeclaration} {place : Place}

theorem step_inClass {ts : List Token} (h : member? isPrivate c ts = some place) (h₁ : ts ≠ [])
    (h₂ : ts ≠ [.mark .closeBlock, .mark .semicolon]) :
    step ⟨items, .inClass isPrivate c⟩ ts = some ⟨items, place⟩ := by
  rw [step, if_neg h₁]
  simp only [if_neg h₂, h, Option.map_some]

theorem lineTokens_render {d : EntryDeclaration} (hd : isName d.name.toList) :
    lineTokens (line 1 d.render) = [.name "static".toList, .name d.kind.macroName.toList,
      .mark .openGroup, .name d.name.toList, .mark .closeGroup, .mark .semicolon] := by
  have hs := scan_word (n := "static".toList) (by decide)
    (d.kind.macroName.toList ++ '(' :: (d.name.toList ++ [')', ';']))
  rw [scan_entryHead d.kind hd, scan_semicolon, scan_nil] at hs
  rw [lineTokens_line]
  exact lineTokens_eq _ (by simpa [EntryDeclaration.render, EntryKind.head] using hs) (by simp)

theorem run_entries {ds : List EntryDeclaration} (h : ∀ d ∈ ds, isName d.name.toList)
    (c : ClassDeclaration) : run ⟨items, .inClass true c⟩ (ds.map fun d => line 1 d.render) =
      some ⟨items, .inClass true { c with entries := c.entries ++ ds }⟩ := by
  induction ds generalizing c
  case nil          => simp [run]
  case cons d ds hi =>
    obtain ⟨hd, h⟩ := List.forall_mem_cons.mp h
    have hs : step ⟨items, .inClass true c⟩ (lineTokens (line 1 d.render)) =
        some ⟨items, .inClass true { c with entries := c.entries ++ [d] }⟩ := by
      rw [lineTokens_render hd]
      refine step_inClass ?_ (by simp) (by simp)
      simp [member?, declared?, entryKind?_macroName]
    refine (run_cons hs).trans ?_
    simpa using hi h { c with entries := c.entries ++ [d] }

theorem member?_field {f : Field} (hf : (Variable.mk false f.type f.name).isReadable) :
    member? true c ((Variable.mk false f.type f.name).tokens ++ [.mark .semicolon]) =
      some (.inClass true { c with fields := c.fields ++ [f] }) := by
  have hr := Variable.read?_tokens hf []
  rw [List.append_nil] at hr
  have hf : field? ((Variable.mk false f.type f.name).tokens ++ [.mark .semicolon]) = some f := by
    simp [field?, upTo?_append, hr]
  have ho : .mark .openGroup ∉ (Variable.mk false f.type f.name).tokens ++ [.mark .semicolon] := by
    simp [Variable.not_mem_tokens, Variable.isPart]
  have hs : .mark .semicolon ∈ (Variable.mk false f.type f.name).tokens ++ [.mark .semicolon] := by
    simp
  generalize (Variable.mk false f.type f.name).tokens ++ [.mark .semicolon] = ts at hf ho hs ⊢
  have hd : declared? ts = none := by
    unfold declared?
    split
    · simp at ho
    · rfl
  unfold member?
  rw [if_neg, if_neg, if_neg, hd, hf]
  · simp
  · rintro (rfl | rfl) <;> simp at ho
  · rintro rfl
    simp at hs
  · rintro rfl
    simp at hs

theorem run_fields {fs : List Field}
    (h : ∀ f ∈ fs, (Variable.mk false f.type f.name).isReadable) (c : ClassDeclaration) :
    run ⟨items, .inClass true c⟩ (fs.map fun f => line 1 f.render) =
      some ⟨items, .inClass true { c with fields := c.fields ++ fs }⟩ := by
  induction fs generalizing c
  case nil          => simp [run]
  case cons f fs hi =>
    obtain ⟨hf, h⟩ := List.forall_mem_cons.mp h
    have hs : step ⟨items, .inClass true c⟩ (lineTokens (line 1 f.render)) =
        some ⟨items, .inClass true { c with fields := c.fields ++ [f] }⟩ := by
      have ht := Variable.scan_render hf [';'] (by simp; decide)
      rw [scan_semicolon, scan_nil] at ht
      rw [lineTokens_line, lineTokens_eq _ (by simpa [Field.render, Variable.render,
        Stmt.constantMark] using ht) (by simp)]
      refine step_inClass (member?_field hf) (by simp) fun he => ?_
      have hc : .mark .closeBlock ∈
          (Variable.mk false f.type f.name).tokens ++ [.mark .semicolon] := by
        simp [he]
      simp [Variable.not_mem_tokens, Variable.isPart] at hc
    refine (run_cons hs).trans ?_
    simpa using hi h { c with fields := c.fields ++ [f] }

section Heading

variable {n : String} (hn : isName n.toList)
include hn

theorem step_heading : step ⟨items, .outside⟩
    (lineTokens ("class " ++ n ++ " : public Nan::ObjectWrap \x7b")) =
      some ⟨items, .inClass false ⟨n, [], []⟩⟩ := by
  have hs := scan_word (n := "class".toList) (by decide)
    (n.toList ++ ' ' :: ':' :: ' ' :: "public Nan::ObjectWrap \x7b".toList)
  have hp : scan none "public Nan::ObjectWrap \x7b".toList =
      [.name "public".toList, .name "Nan::ObjectWrap".toList, .mark .openBlock] := by
    decide
  rw [scan_word hn, Expr.scan_colon, hp] at hs
  rw [lineTokens_eq _ (by simpa using hs) (by simp)]
  refine step_outside ?_ (by simp)
  simp [outside, isHelperNamespace, class?]

theorem scan_nullary : scan none (n.toList ++ ['(', ')', ';']) =
    [.name n.toList, .mark .openGroup, .mark .closeGroup, .mark .semicolon] := by
  rw [scan_name hn (by simp; decide), scan_openGroup, scan_closeGroup, scan_semicolon, scan_nil]

theorem step_constructor : step ⟨items, .inClass true ⟨n, [], []⟩⟩
    (lineTokens (line 1 (n ++ "();"))) = some ⟨items, .inClass true ⟨n, [], []⟩⟩ := by
  rw [lineTokens_line, lineTokens_eq _ (by simpa using scan_nullary hn) (by simp)]
  refine step_inClass ?_ (by simp) (by simp)
  simp [member?]

theorem step_destructor : step ⟨items, .inClass true ⟨n, [], []⟩⟩
    (lineTokens (line 1 ("~" ++ n ++ "();"))) = some ⟨items, .inClass true ⟨n, [], []⟩⟩ := by
  rw [lineTokens_line,
    lineTokens_eq (.mark .tilde :: _) (by simpa using scan_nullary hn) (by simp)]
  refine step_inClass ?_ (by simp) (by simp)
  simp [member?]

theorem run_heading (ls : List String) : run ⟨items, .outside⟩
    (["class " ++ n ++ " : public Nan::ObjectWrap \x7b", " public:",
      line 1 (EntryDeclaration.mk .moduleInit "Init").render, "",
      " private:", line 1 (n ++ "();"), line 1 ("~" ++ n ++ "();"), ""] ++ ls) =
    run ⟨items, .inClass true ⟨n, [], []⟩⟩ ls := by
  have hp : step ⟨items, .inClass false ⟨n, [], []⟩⟩ (lineTokens " public:") =
      some ⟨items, .inClass false ⟨n, [], []⟩⟩ := by
    rw [show lineTokens " public:" = [.name "public:".toList] by decide]
    refine step_inClass ?_ (by simp) (by simp)
    simp [member?]
  have hi : step ⟨items, .inClass false ⟨n, [], []⟩⟩
      (lineTokens (line 1 (EntryDeclaration.mk .moduleInit "Init").render)) =
        some ⟨items, .inClass false ⟨n, [], []⟩⟩ := by
    rw [lineTokens_render (by decide)]
    refine step_inClass ?_ (by simp) (by simp)
    simp [member?, declared?, entryKind?_macroName]
  have hq : step ⟨items, .inClass false ⟨n, [], []⟩⟩ (lineTokens " private:") =
      some ⟨items, .inClass true ⟨n, [], []⟩⟩ := by
    rw [show lineTokens " private:" = [.name "private:".toList] by decide]
    refine step_inClass ?_ (by simp) (by simp)
    simp [member?]
  exact (run_cons (step_heading hn)).trans <| (run_cons hp).trans <| (run_cons hi).trans <|
    (run_blank _ _).trans <| (run_cons hq).trans <| (run_cons (step_constructor hn)).trans <|
    (run_cons (step_destructor hn)).trans <| run_blank _ _

end Heading

theorem run_class (h : c.isReadable) :
    run ⟨items, .outside⟩ c.lines = some ⟨items ++ [.classDeclaration c], .outside⟩ := by
  simp only [ClassDeclaration.isReadable, Bool.and_eq_true, List.all_eq_true] at h
  have hf : run ⟨items, .inClass true ⟨c.name, c.entries, []⟩⟩
      (if c.fields.isEmpty then [] else "" :: c.fields.map fun f => line 1 f.render) =
        some ⟨items, .inClass true c⟩ := by
    obtain ⟨n, ds, fs⟩ := c
    cases fs
    case nil  => rfl
    case cons => exact (run_blank _ _).trans (run_fields h.2 _)
  rw [c.lines_eq, run_heading h.1.1]
  refine (run_append (run_entries h.1.2 _)).trans <| (run_append hf).trans <| run_cons ?_
  rfl

section Definitions

variable {n : String}

-- The fields of a constructor, each with its value in the form of a call.
def initialised (fields : List (String × Expr)) : List Expr :=
  fields.map fun f => .call (.name f.1) [f.2]

theorem renderArgs_initialised (fields : List (String × Expr)) :
    Expr.renderArgs (initialised fields) = fields.map fun f => f.1 ++ "(" ++ f.2.render ++ ")" := by
  induction fields
  case nil => rfl
  case cons f fields hi =>
    rw [initialised, List.map_cons, Expr.renderArgs, ← initialised, hi]
    simp [Expr.render, Expr.renderArgs]

theorem listOfTokens?_argTokens {args : List Expr} (h : Expr.allReadable args) :
    Expr.listOfTokens? (Expr.argTokens args) = some args := by
  have ht : Expr.ofTokens? (.name [] :: .mark .openGroup ::
      (Expr.argTokens args ++ [.mark .closeGroup])) = some (.call (.name "") args) := by
    show ((Expr.argTokens args ++ [Token.mark .closeGroup]).foldlM Expr.Parsing.step
      ⟨[.args (.name "") []], none⟩ >>= Expr.Parsing.finish) = _
    rw [Expr.readsArgs args h]
    rfl
  simp [Expr.listOfTokens?, ht]

theorem initialisers?_tokens {fields : List (String × Expr)}
    (h : Expr.allReadable (initialised fields)) :
    initialisers? (.mark .colon :: Expr.argTokens (initialised fields)) = some fields := by
  rw [initialisers?, listOfTokens?_argTokens h]
  show (initialised fields).mapM initialised? = some fields
  clear h
  induction fields
  case nil              => rfl
  case cons f fields hi =>
    rw [initialised, List.map_cons, List.mapM_cons, ← initialised, hi]
    rfl

theorem constructed?_symbol (n : String) :
    constructed? (n.toList ++ "::".toList ++ n.toList) = some n := by
  have hl : ((n.toList ++ "::".toList ++ n.toList).length - 2) / 2 = n.toList.length := by
    simp
    omega
  rw [constructed?, hl]
  simp

theorem outside_initialiser {fields : List (String × Expr)} (ts : List Token)
    (h : initialisers? ts = some fields) :
    outside items (.name (n.toList ++ ("::".toList ++ n.toList)) :: .mark .openGroup ::
      .mark .closeGroup :: (ts ++ [.mark .openBlock, .mark .closeBlock])) =
        some ⟨items ++ [.initialiser n fields], .outside⟩ := by
  have hb := upTo?_append .closeBlock (ts ++ [.mark .openBlock])
  rw [List.append_assoc, List.singleton_append] at hb
  have hi : initialiser? (.name (n.toList ++ ("::".toList ++ n.toList)) :: .mark .openGroup ::
      .mark .closeGroup :: (ts ++ [.mark .openBlock, .mark .closeBlock])) =
        some (.initialiser n fields) := by
    rw [initialiser?, hb]
    simp only [Option.bind_eq_bind, Option.bind_some, upTo?_append, h, ← List.append_assoc,
      constructed?_symbol]
    rfl
  simp only [outside, isHelperNamespace, class?, entryHead?, registration?, destructor?, hi]
  rfl

theorem run_initialiser {fields : List (String × Expr)} (hn : isWord n.toList)
    (hf : Expr.allReadable (initialised fields)) :
    run ⟨items, .outside⟩ (Item.initialiser n fields).lines =
      some ⟨items ++ [.initialiser n fields], .outside⟩ := by
  have hq (cs : List Char) :
      scan none ((n.toList ++ ("::".toList ++ n.toList)) ++ '(' :: ')' :: cs) =
        .name (n.toList ++ ("::".toList ++ n.toList)) :: .mark .openGroup :: .mark .closeGroup ::
          scan none cs := by
    rw [scan_name (isName_qualified hn hn) (by simp; decide), scan_openGroup, scan_closeGroup]
  refine run_cons ?_
  cases hfs : fields.isEmpty
  case true =>
    obtain rfl := List.isEmpty_iff.mp hfs
    have hs := hq [' ', '\x7b', '\x7d']
    rw [lineTokens_eq _ (by simpa using hs) (by simp)]
    exact step_outside (outside_initialiser [] rfl) (by simp)
  case false =>
    have hs := hq (' ' :: ':' :: ' ' :: ((", ".intercalate
      (Expr.renderArgs (initialised fields))).toList ++ [' ', '\x7b', '\x7d']))
    rw [scan_blank, Expr.scan_colon, Expr.scan_args _ (by simp [Expr.isEnd]) _ hf,
      renderArgs_initialised] at hs
    rw [lineTokens_eq (.name _ :: .mark .openGroup :: .mark .closeGroup ::
      ((.mark .colon :: Expr.argTokens (initialised fields)) ++
        [.mark .openBlock, .mark .closeBlock])) (by simpa [hfs] using hs) (by simp)]
    exact step_outside (outside_initialiser _ (initialisers?_tokens hf)) (by simp)

theorem run_destructor (hn : isWord n.toList) :
    run ⟨items, .outside⟩ (Item.destructor n).lines =
      some ⟨items ++ [.destructor n], .outside⟩ := by
  refine run_cons ?_
  have hq : scan none ((n.toList ++ "::".toList) ++ '~' :: (n.toList ++ "() \x7b\x7d".toList)) = _ :=
    scan_name (isName_append hn (by decide) (by decide)) (by simp; decide)
  have hs : scan none (n.toList ++ "() \x7b\x7d".toList) = _ :=
    scan_name (isName_of_isWord hn) (by simp; decide)
  rw [scan_tilde, hs, show scan none "() \x7b\x7d".toList = [.mark .openGroup, .mark .closeGroup,
    .mark .openBlock, .mark .closeBlock] by decide] at hq
  rw [lineTokens_eq _ (by simpa using hq) (by simp)]
  refine step_outside ?_ (by simp)
  simp [outside, isHelperNamespace, class?, entryHead?, registration?, destructor?]

theorem run_registration (hn : isName n.toList) :
    run ⟨items, .outside⟩ (Item.registration n).lines =
      some ⟨items ++ [.registration n], .outside⟩ := by
  have hk : scan none ("NODE_MODULE".toList ++ '(' :: (n.toList ++ ", InitAll)".toList)) = _ :=
    scan_name (by decide) (by simp; decide)
  have hs : scan none (n.toList ++ ", InitAll)".toList) = _ := scan_name hn (by simp; decide)
  rw [scan_openGroup, hs, show scan none ", InitAll)".toList = [.mark .comma,
    .name "InitAll".toList, .mark .closeGroup] by decide] at hk
  refine run_cons ?_
  rw [lineTokens_eq _ (by simpa using hk) (by simp)]
  refine step_outside ?_ (by simp)
  simp [outside, isHelperNamespace, class?, entryHead?, registration?]

end Definitions

end Reading

namespace Item

-- What is left of an item without its comments, and without directives.
def bare? : Item → Option Item
  | .comments _ | .includes _ => none
  | .entryPoint e             => some (.entryPoint e.bare)
  | item                      => some item

def isReadable : Item → Bool
  | .comments texts       => texts.all ("//".toList.isPrefixOf ·.toList)
  | .includes _           => true
  | .helpers fs           => fs.all Function.isReadable
  | .classDeclaration c   => c.isReadable
  | .initialiser n fields => isWord n.toList && Expr.allReadable (Reading.initialised fields)
  | .destructor n         => isWord n.toList
  | .entryPoint e         => e.isReadable
  | .registration n       => isName n.toList

end Item

namespace Reading

variable {items : List Item}

theorem run_helpers {fs : List Function} (h : ∀ f ∈ fs, f.isReadable) :
    run ⟨items, .outside⟩ (Item.helpers fs).lines =
      some ⟨items ++ [.helpers fs], .outside⟩ := by
  have hs : step ⟨items, .outside⟩ (lineTokens ("namespace " ++ helperNamespace ++ " \x7b")) =
      some ⟨items, .helpers []⟩ := rfl
  have he : step ⟨items, .helpers fs⟩ (lineTokens ("\x7d  // namespace " ++ helperNamespace)) =
      some ⟨items ++ [.helpers fs], .outside⟩ := rfl
  have hf := run_spaced (fun fs => ⟨items, .helpers fs⟩)
    (fun done f hf => run_function (h f hf) done) []
  simp only [Item.lines, List.append_assoc]
  refine (run_cons hs).trans <| (run_blank _ _).trans <| (run_append hf).trans <|
    (run_blank _ _).trans <| run_cons he

theorem run_item {item : Item} (h : item.isReadable) (items : List Item) :
    run ⟨items, .outside⟩ item.lines = some ⟨items ++ item.bare?.toList, .outside⟩ := by
  cases item
  case comments texts =>
    refine (run_hidden fun l hl => ?_).trans (by simp [Item.bare?])
    have ⟨cs, hs⟩ := List.isPrefixOf_iff_prefix.mp (List.all_eq_true.mp h l hl)
    exact lineTokens_comment hs.symm
  case includes headers =>
    refine (run_hidden fun l hl => ?_).trans (by simp [Item.bare?])
    obtain ⟨s, -, rfl⟩ := List.mem_map.mp hl
    exact lineTokens_directive (by simp; rfl)
  case initialiser =>
    have ⟨hn, hf⟩ := Bool.and_eq_true_iff.mp h
    exact run_initialiser hn hf
  case helpers          => exact run_helpers (List.all_eq_true.mp h)
  case classDeclaration => exact run_class h
  case destructor       => exact run_destructor h
  case entryPoint       => exact run_entryPoint h
  case registration     => exact run_registration h

end Reading

-- Items are read from their lines as they are, apart from what is no code.
theorem read?_of_lines {items : List Item} {code : String} (hl : Text.lines code = itemLines items)
    (h : ∀ item ∈ items, item.isReadable) : read? code = some (items.filterMap Item.bare?) := by
  have hr : Reading.run ⟨[], .outside⟩ (itemLines items) =
      some ⟨items.filterMap Item.bare?, .outside⟩ := by
    refine Reading.run_spaced (fun done => ⟨done.filterMap Item.bare?, .outside⟩)
      (fun done item hi => ?_) []
    have hb : [item].filterMap Item.bare? = item.bare?.toList := by
      cases hb : item.bare? <;> simp [hb]
    rw [Reading.run_item (h item hi), List.filterMap_append, hb]
  rw [read?, hl, List.foldlM_map]
  exact (congrArg (· >>= Reading.finish) hr).trans rfl

end AddonBinding.Source
