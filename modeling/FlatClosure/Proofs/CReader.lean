/-
Reading C source files.

A reader for the texts of generated source files. It takes the longest word
first and then looks at the next byte, so a name can only be a whole word.

* `isCName`: plain names of C, that is words that are no keywords.
* `CExpr.ofText?`, `CStmt.ofText?`, `CItem.ofText?`, `CUnit.ofText?`: the readers.
  Those of expressions and of lists are bounded by the length of the text.
* `CUnit.identifiers`: the names that a source file uses.
* `CUnit.ofText?_render`: the text of a file in which all names are plain is read
  as this file.
-/
import FlatClosure.Proofs.Words

namespace FlatClosure

/-! ### Words and numerals -/

namespace Text

/-- The rest of a text that starts as expected. -/
def skip? (start t : Text) : Option Text := start.isPrefixOf? t

/-- The numeral at the start of a text. -/
def natural? (t : Text) : Option (Nat × Text) :=
  match t.takeWhile isDigit with
  | [] => none
  | digits => some (decimalValue digits, t.dropWhile isDigit)

/-- The numeral at the start of a text, perhaps with a minus sign. -/
def integer? : Text → Option (Int × Text)
  | 45 :: t => (natural? t).map fun r => (-(r.1 : Int), r.2)
  | t => (natural? t).map fun r => ((r.1 : Int), r.2)

end Text

/-- The keywords of C, without those added in 2011. -/
def cKeywords : List Text := List.map Text.ofString [
  "auto", "break", "case", "char", "const", "continue", "default", "do", "double", "else",
  "enum", "extern", "float", "for", "goto", "if", "inline", "int", "long", "register",
  "restrict", "return", "short", "signed", "sizeof", "static", "struct", "switch",
  "typedef", "union", "unsigned", "void", "volatile", "while", "_Bool", "_Complex",
  "_Imaginary"]

/-- Whether a text is a name of C. -/
def isCName (name : Text) : Bool := name.isWord && !cKeywords.contains name

lemma isCName_iff {name : Text} : isCName name ↔ name.isWord ∧ name ∉ cKeywords := by
  simp [isCName]

/-- The name at the start of a text. -/
def cName? (t : Text) : Option (Text × Text) :=
  if isCName (t.takeWhile Text.isWordByte) then
    some (t.takeWhile Text.isWordByte, t.dropWhile Text.isWordByte)
  else none

/-! ### Readers -/

open Text (skip?)

namespace CExpr

/-- An integer, behind `build_int(`. -/
def readInt (t : Text) : Option (CExpr × Text) := do
  let (value, t) ← t.integer?
  let t ← skip? ")" t
  if (Int64.ofInt value).toInt = value then return (.int (Int64.ofInt value), t) else none

/-- A slot, behind `env[`. -/
def readSlot (env t : Text) : Option (CExpr × Text) := do
  let (index, t) ← t.integer?
  return (.slot env index, ← skip? "]" t)

/-- A call, behind `callee-`. -/
def readCall (readArg : Text → Option (CExpr × Text)) (callee t : Text) :
    Option (CExpr × Text) := do
  let t ← skip? ">c.code(" t
  let t ← skip? callee t
  let t ← skip? "->c.env, " t
  let (arg, t) ← readArg t
  return (.call callee arg, ← skip? ")" t)

/-- A closure, behind `build_cls(`. The sizes of the array and of the copy have
to be the number of captured values. -/
def readClosure (readCaptured : Text → Option (List CExpr × Text)) (t : Text) :
    Option (CExpr × Text) := do
  let (func, t) ← cName? t
  let t ← skip? ", " t
  match skip? "NULL)" t with
  | some t => return (.closure func [], t)
  | none => do
    let t ← skip? "memcpy(malloc(sizeof(val_t *) * " t
    let (size, t) ← t.natural?
    let t ← skip? "), (val_t *[])\x7b" t
    let (captured, t) ← readCaptured t
    let t ← skip? "\x7d, sizeof(val_t *) * " t
    let (copied, t) ← t.natural?
    let t ← skip? "))" t
    if size = captured.length ∧ copied = captured.length then
      return (.closure func captured, t)
    else none

mutual

/-- The expression at the start of a text. -/
def ofText? : (fuel : Nat) → Text → Option (CExpr × Text)
  | 0, _ => none
  | fuel + 1, t => do
    let (name, t) ← cName? t
    match t with
    | 40 :: t =>
      if name = "build_int" then readInt t
      else if name = "build_cls" then readClosure (allOfText? fuel) t
      else none
    | 45 :: t => readCall (ofText? fuel) name t
    | 91 :: t => readSlot name t
    | t => return (.read name, t)

/-- The expressions at the start of a text, with commas between them. -/
def allOfText? : (fuel : Nat) → Text → Option (List CExpr × Text)
  | 0, _ => none
  | fuel + 1, t => do
    let (e, t) ← ofText? fuel t
    match skip? ", " t with
    | some t => do
      let (es, t) ← allOfText? fuel t
      return (e :: es, t)
    | none => return ([e], t)

end

end CExpr

/-- The line of a statement at the start of a text. -/
def CStmt.ofText? (t : Text) : Option (CStmt × Text) := do
  let t ← skip? "\t" t
  let (name, t) ← cName? t
  match skip? " = " t with
  | some t => do
    let (value, t) ← CExpr.ofText? (t.length + 1) t
    return (.assign name value, ← skip? ";\n" t)
  | none => do
    if name = "val_t" then do
      let t ← skip? " *" t
      let (name, t) ← cName? t
      return (.declare name, ← skip? ";\n" t)
    else none

/-- The statements at the start of a text. -/
def CStmt.takeAll : (fuel : Nat) → Text → List CStmt × Text
  | 0, t => ([], t)
  | fuel + 1, t =>
    match CStmt.ofText? t with
    | some (stmt, t) =>
      let (stmts, t) := CStmt.takeAll fuel t
      (stmt :: stmts, t)
    | none => ([], t)

/-- The statements at the start of a text, and the expression between `start`
and `close` behind them. -/
def CBody.ofText? (start close t : Text) : Option (CBody × Text) := do
  let (stmts, t) := CStmt.takeAll t.length t
  let t ← skip? start t
  let (value, t) ← CExpr.ofText? (t.length + 1) t
  return (⟨stmts, value⟩, ← skip? close t)

/-- The function definition at the start of a text. -/
def CItem.ofText? (t : Text) : Option (CItem × Text) :=
  match skip? "val_t *" t with
  | some t => do
    let (name, t) ← cName? t
    let t ← skip? "(val_t **" t
    let (env, t) ← cName? t
    let t ← skip? ", val_t *" t
    let (arg, t) ← cName? t
    let t ← skip? ") \x7b\n" t
    let (body, t) ← CBody.ofText? "\treturn " ";\n\x7d" t
    return (.function name env arg body, t)
  | none => do
    let t ← skip? "int main(void) \x7b\n" t
    let (body, t) ← CBody.ofText? "\tprint_val(" ");\n\treturn 0;\n\x7d" t
    return (.main body, t)

namespace CUnit

/-- The function definitions of the rest of a source file, a blank line before
each. -/
def readItems : (fuel : Nat) → Text → Option CUnit
  | 0, _ => none
  | fuel + 1, t =>
    match skip? "\n\n" t with
    | some t => do
      let (item, t) ← CItem.ofText? t
      return item :: (← readItems fuel t)
    | none => if t = "\n" then some [] else none

/-- The source file that a text is. -/
def ofText? (t : Text) : Option CUnit := do
  let t ← skip? opening t
  readItems (t.length + 1) t

end CUnit

/-! ### Reading words and numerals back -/

namespace Text

@[simp] lemma skip?_append (start t : Text) : skip? start (start ++ t) = some t := by
  rw [skip?, List.isPrefixOf?_eq_some_iff_append_eq]

lemma natural?_append (n : Nat) {b : UInt8} (hb : isDigit b = false) (rest : Text) :
    natural? (ofNat n ++ b :: rest) = some (n, b :: rest) := by
  obtain ⟨htake, hdrop⟩ := span_append (fun c hc => isDigit_of_mem_ofNat hc) hb rest
  rw [natural?, htake, hdrop]
  cases hdigits : ofNat n with
  | nil => exact absurd hdigits (ofNat_ne_nil n)
  | cons c digits =>
      dsimp only
      rw [← hdigits, decimalValue_ofNat]

lemma integer?_append (value : Int) {b : UInt8} (hb : isDigit b = false) (rest : Text) :
    integer? (ofInt value ++ b :: rest) = some (value, b :: rest) := by
  cases value with
  | ofNat n =>
      -- a numeral does not start with a minus sign
      cases hdigits : ofNat n with
      | nil => exact absurd hdigits (ofNat_ne_nil n)
      | cons c digits =>
          have hc : isDigit c = true := isDigit_of_mem_ofNat (hdigits ▸ List.mem_cons_self)
          have hminus : c ≠ 45 := by
            rintro rfl
            exact absurd hc (by decide)
          have hnat := natural?_append n hb rest
          rw [ofInt, hdigits] at *
          rw [List.cons_append] at hnat ⊢
          rw [integer?, hnat]
          · rfl
          · exact fun t heq => hminus (List.cons.inj heq).1
  | negSucc n =>
      have hminus : ofInt (Int.negSucc n) ++ b :: rest = 45 :: (ofNat (n + 1) ++ b :: rest) := rfl
      rw [hminus, integer?, natural?_append (n + 1) hb]
      rfl

end Text

lemma cName?_append {name : Text} (h : isCName name) {b : UInt8}
    (hb : Text.isWordByte b = false) (rest : Text) :
    cName? (name ++ b :: rest) = some (name, b :: rest) := by
  obtain ⟨htake, hdrop⟩ := Text.span_append (Text.isWord_iff.mp (isCName_iff.mp h).1).2 hb rest
  rw [cName?, htake, hdrop, if_pos h]

/-! ### Reading expressions back -/

namespace CExpr

/-- The induction principle of the nested inductive. -/
@[elab_as_elim]
theorem ind {P : CExpr → Prop} (int : ∀ value, P (int value)) (read : ∀ name, P (read name))
    (slot : ∀ env index, P (slot env index)) (call : ∀ callee arg, P arg → P (call callee arg))
    (closure : ∀ func captured, (∀ c ∈ captured, P c) → P (closure func captured))
    (e : CExpr) : P e :=
  @CExpr.rec P (fun es => ∀ c ∈ es, P c) int read slot call closure
    (List.forall_mem_nil P) (fun _ _ he hes => List.forall_mem_cons.mpr ⟨he, hes⟩) e

mutual

/-- The names that an expression uses. -/
def identifiers : CExpr → List Text
  | int _ => []
  | read name => [name]
  | slot env _ => [env]
  | call callee arg => callee :: arg.identifiers
  | closure func captured => func :: identifiersAll captured

/-- The names that expressions use. -/
def identifiersAll : List CExpr → List Text
  | [] => []
  | e :: es => e.identifiers ++ identifiersAll es

end

lemma identifiersAll_eq (es : List CExpr) : identifiersAll es = es.flatMap identifiers := by
  induction es with
  | nil => rfl
  | cons e es ih => rw [identifiersAll, ih, List.flatMap_cons]

lemma renderAll_eq (es : List CExpr) : renderAll es = es.map render := by
  induction es with
  | nil => rfl
  | cons e es ih => rw [renderAll, ih, List.map_cons]

/-- Whether a text goes on with a byte that can follow an expression: a closing
parenthesis or brace, a comma or a semicolon. -/
def Closes (t : Text) : Prop := ∃ b rest, t = b :: rest ∧ b ∈ [(41 : UInt8), 44, 59, 125]

/-- Whether an expression is read back in front of every text that can follow
it. -/
def ReadsBack (e : CExpr) : Prop :=
  ∀ fuel rest, e.render.length < fuel → Closes rest →
    ofText? fuel (e.render ++ rest) = some (e, rest)

lemma readsBack_int (value : Int64) : (int value).ReadsBack := by
  intro fuel rest hfuel hrest
  obtain ⟨fuel, rfl⟩ : ∃ k, fuel = k + 1 := ⟨fuel - 1, by omega⟩
  have htext : (int value).render ++ rest =
      "build_int" ++ 40 :: (Text.ofInt value.toInt ++ 41 :: rest) := by
    simp only [render, List.append_assoc]
    rfl
  have hclose : skip? ")" (41 :: rest) = some rest := Text.skip?_append ")" rest
  rw [htext, ofText?, cName?_append (by decide) (by decide)]
  simp [readInt, Text.integer?_append _ (by decide : Text.isDigit 41 = false), hclose]

lemma readsBack_read {name : Text} (h : isCName name) : (read name).ReadsBack := by
  intro fuel rest hfuel hrest
  obtain ⟨fuel, rfl⟩ : ∃ k, fuel = k + 1 := ⟨fuel - 1, by omega⟩
  obtain ⟨b, rest, rfl, hb⟩ := hrest
  rw [render, ofText?]
  simp only [List.mem_cons, List.not_mem_nil, or_false] at hb
  rcases hb with rfl | rfl | rfl | rfl <;> rw [cName?_append h (by decide)] <;> rfl

lemma readsBack_slot {env : Text} (h : isCName env) (index : Int) :
    (slot env index).ReadsBack := by
  intro fuel rest hfuel hrest
  obtain ⟨fuel, rfl⟩ : ∃ k, fuel = k + 1 := ⟨fuel - 1, by omega⟩
  have htext : (slot env index).render ++ rest =
      env ++ 91 :: (Text.ofInt index ++ 93 :: rest) := by
    simp only [render, List.append_assoc]
    rfl
  have hclose : skip? "]" (93 :: rest) = some rest := Text.skip?_append "]" rest
  rw [htext, ofText?, cName?_append h (by decide)]
  simp [readSlot, Text.integer?_append _ (by decide : Text.isDigit 93 = false), hclose]

lemma readsBack_call {callee : Text} (h : isCName callee) {arg : CExpr}
    (harg : arg.ReadsBack) : (call callee arg).ReadsBack := by
  intro fuel rest hfuel hrest
  obtain ⟨fuel, rfl⟩ : ∃ k, fuel = k + 1 := ⟨fuel - 1, by omega⟩
  have htext : (call callee arg).render ++ rest = callee ++ 45 :: (Text.ofString ">c.code(" ++
      (callee ++ (Text.ofString "->c.env, " ++ (arg.render ++ 41 :: rest)))) := by
    simp only [render, List.append_assoc]
    rfl
  have hparen : (Text.ofString ")").length = 1 := rfl
  have hlength : arg.render.length < fuel := by
    simp only [render, List.length_append, hparen] at hfuel
    omega
  have hclose : skip? ")" (41 :: rest) = some rest := Text.skip?_append ")" rest
  have hread := harg fuel (41 :: rest) hlength ⟨41, rest, rfl, by simp⟩
  rw [htext, ofText?, cName?_append h (by decide)]
  simp [readCall, hread, hclose]

/-- Captured expressions are read back in front of the brace behind them. -/
lemma allOfText?_render {e : CExpr} {es : List CExpr} (he : e.ReadsBack)
    (hes : ∀ c ∈ es, c.ReadsBack) {fuel : Nat}
    (hfuel : (Text.join ", " (e.render :: es.map render)).length + 1 < fuel) (rest : Text) :
    allOfText? fuel (Text.join ", " (e.render :: es.map render) ++ 125 :: rest) =
      some (e :: es, 125 :: rest) := by
  induction es generalizing e fuel with
  | nil =>
      obtain ⟨fuel, rfl⟩ : ∃ k, fuel = k + 1 := ⟨fuel - 1, by omega⟩
      rw [List.map_nil, Text.join] at hfuel ⊢
      have hread := he fuel (125 :: rest) (by omega) ⟨125, rest, rfl, by simp⟩
      have hlast : skip? ", " (125 :: rest) = none := rfl
      simp [allOfText?, hread, hlast]
  | cons c es ih =>
      obtain ⟨fuel, rfl⟩ : ∃ k, fuel = k + 1 := ⟨fuel - 1, by omega⟩
      have hjoin : Text.join ", " (e.render :: (c :: es).map render) =
          e.render ++ (Text.ofString ", " ++ Text.join ", " (c.render :: es.map render)) := by
        rw [List.map_cons, Text.join, List.append_assoc]
        simp
      have hcomma : (Text.ofString ", ").length = 2 := rfl
      rw [hjoin, List.length_append, List.length_append, hcomma] at hfuel
      have hrest := ih (hes c List.mem_cons_self)
        (fun c' hc' => hes c' (List.mem_cons_of_mem c hc'))
        (show (Text.join ", " (c.render :: es.map render)).length + 1 < fuel by omega)
      have hread := he fuel (Text.ofString ", " ++
        (Text.join ", " (c.render :: es.map render) ++ 125 :: rest)) (by omega)
        ⟨44, _, rfl, by simp⟩
      rw [hjoin, List.append_assoc, List.append_assoc]
      simp [allOfText?, hread, hrest]

lemma ofText?_build_cls (fuel : Nat) (t : Text) :
    ofText? (fuel + 1) (Text.ofString "build_cls" ++ 40 :: t) =
      readClosure (allOfText? fuel) t := by
  have hne : Text.ofString "build_cls" ≠ Text.ofString "build_int" := by decide
  rw [ofText?, cName?_append (by decide) (by decide)]
  simp [hne]

lemma readsBack_closure {func : Text} (h : isCName func) {captured : List CExpr}
    (hcaptured : ∀ c ∈ captured, c.ReadsBack) : (closure func captured).ReadsBack := by
  intro fuel rest hfuel hrest
  obtain ⟨fuel, rfl⟩ : ∃ k, fuel = k + 1 := ⟨fuel - 1, by omega⟩
  have hcomma : ∀ t, skip? ", " (44 :: 32 :: t) = some t := Text.skip?_append ", "
  have hname : ∀ t, cName? (func ++ 44 :: t) = some (func, 44 :: t) :=
    cName?_append h (by decide)
  cases captured with
  | nil =>
      have htext : (closure func []).render ++ rest = Text.ofString "build_cls" ++
          40 :: (func ++ 44 :: 32 :: (Text.ofString "NULL)" ++ rest)) := by
        simp only [render, List.append_assoc]
        rfl
      rw [htext, ofText?_build_cls]
      simp [readClosure, hname, hcomma]
  | cons e es =>
      have hclose : ∀ t, skip? "), (val_t *[])\x7b" (41 :: (Text.ofString ", (val_t *[])\x7b" ++ t)) =
        some t := Text.skip?_append "), (val_t *[])\x7b"
      have hbrace : ∀ t, skip? "\x7d, sizeof(val_t *) * "
          (125 :: (Text.ofString ", sizeof(val_t *) * " ++ t)) = some t :=
        Text.skip?_append "\x7d, sizeof(val_t *) * "
      have hend : skip? "))" (41 :: 41 :: rest) = some rest := Text.skip?_append "))" rest
      have hnull : ∀ t, skip? "NULL)" (Text.ofString "memcpy(malloc(sizeof(val_t *) * " ++ t) =
        none := fun t => rfl
      have hsize : ∀ t, Text.natural? (Text.ofNat (es.length + 1) ++ 41 :: t) =
          some (es.length + 1, 41 :: t) :=
        Text.natural?_append (es.length + 1) (by decide)
      have htext : (closure func (e :: es)).render ++ rest = Text.ofString "build_cls" ++
          40 :: (func ++ 44 :: 32 :: (Text.ofString "memcpy(malloc(sizeof(val_t *) * " ++
          (Text.ofNat (es.length + 1) ++ 41 :: (Text.ofString ", (val_t *[])\x7b" ++
          (Text.join ", " (e.render :: es.map render) ++ 125 ::
          (Text.ofString ", sizeof(val_t *) * " ++
          (Text.ofNat (es.length + 1) ++ 41 :: 41 :: rest))))))) := by
        simp only [render, renderAll_eq, List.append_assoc]
        rfl
      have hlength : (Text.join ", " (e.render :: es.map render)).length + 1 < fuel := by
        have hname : (Text.ofString "build_cls(").length = 10 := rfl
        simp only [render, renderAll_eq, List.length_append, hname] at hfuel
        omega
      have hread := allOfText?_render (hcaptured e List.mem_cons_self)
        (fun c hc => hcaptured c (List.mem_cons_of_mem e hc)) hlength
      rw [htext, ofText?_build_cls]
      simp [readClosure, hname, hcomma, hnull, hsize, hclose, hread, hbrace, hend]

/-- **Expressions are read back** if all their names are names of C. -/
theorem readsBack (e : CExpr) (h : ∀ x ∈ e.identifiers, isCName x) : e.ReadsBack := by
  induction e using ind with
  | int value => exact readsBack_int value
  | read name => exact readsBack_read (h name List.mem_cons_self)
  | slot env index => exact readsBack_slot (h env List.mem_cons_self) index
  | call callee arg ih =>
      exact readsBack_call (h callee List.mem_cons_self)
        (ih fun x hx => h x (List.mem_cons_of_mem callee hx))
  | closure func captured ih =>
      rw [identifiers, identifiersAll_eq] at h
      refine readsBack_closure (h func List.mem_cons_self) fun c hc => ih c hc fun x hx => ?_
      exact h x (List.mem_cons_of_mem func (List.mem_flatMap.mpr ⟨c, hc, hx⟩))

end CExpr

/-! ### Reading statements and bodies back -/

/-- The names that a statement uses. -/
def CStmt.identifiers : CStmt → List Text
  | declare name => [name]
  | assign name value => name :: value.identifiers

/-- The names that a body uses. -/
def CBody.identifiers (body : CBody) : List Text :=
  body.stmts.flatMap CStmt.identifiers ++ body.value.identifiers

lemma CStmt.ofText?_render {stmt : CStmt} (h : ∀ x ∈ stmt.identifiers, isCName x) (rest : Text) :
    ofText? (stmt.render ++ rest) = some (stmt, rest) := by
  have hend : skip? ";\n" (59 :: 10 :: rest) = some rest := Text.skip?_append ";\n" rest
  cases stmt with
  | declare name =>
      have htext : (declare name).render ++ rest = Text.ofString "\t" ++ (Text.ofString "val_t" ++
          32 :: 42 :: (name ++ 59 :: 10 :: rest)) := by
        simp only [render, List.append_assoc]
        rfl
      have hassign : ∀ t, skip? " = " (32 :: 42 :: t) = none := fun t => rfl
      have hstar : ∀ t, skip? " *" (32 :: 42 :: t) = some t := Text.skip?_append " *"
      have hval : ∀ t, cName? (Text.ofString "val_t" ++ 32 :: t) =
          some (Text.ofString "val_t", 32 :: t) :=
        cName?_append (by decide) (by decide)
      have hname : cName? (name ++ 59 :: 10 :: rest) = some (name, 59 :: 10 :: rest) :=
        cName?_append (h name List.mem_cons_self) (by decide) _
      rw [htext]
      simp [ofText?, hval, hassign, hstar, hname, hend]
  | assign name value =>
      have htext : (assign name value).render ++ rest = Text.ofString "\t" ++
          (name ++ 32 :: 61 :: 32 :: (value.render ++ 59 :: 10 :: rest)) := by
        simp only [render, List.append_assoc]
        rfl
      have hassign : ∀ t, skip? " = " (32 :: 61 :: 32 :: t) = some t := Text.skip?_append " = "
      have hname : ∀ t, cName? (name ++ 32 :: t) = some (name, 32 :: t) :=
        cName?_append (h name List.mem_cons_self) (by decide)
      have hvalue := value.readsBack (fun x hx => h x (List.mem_cons_of_mem name hx))
        ((value.render ++ 59 :: 10 :: rest).length + 1) (59 :: 10 :: rest)
        (by rw [List.length_append]; omega) ⟨59, _, rfl, by simp⟩
      rw [htext]
      simp only [ofText?, Text.skip?_append, hname, hassign, Option.bind_eq_bind,
        Option.bind_some, hvalue, hend]
      rfl

/-- Statements are read up to a text that does not start with one. -/
lemma CStmt.takeAll_render {stmts : List CStmt}
    (h : ∀ x ∈ stmts.flatMap CStmt.identifiers, isCName x) {rest : Text}
    (hrest : ofText? rest = none) (fuel : Nat) (hfuel : stmts.length ≤ fuel) :
    takeAll fuel (stmts.flatMap render ++ rest) = (stmts, rest) := by
  induction stmts generalizing fuel with
  | nil =>
      cases fuel with
      | zero => rfl
      | succ fuel => simp [takeAll, hrest]
  | cons stmt stmts ih =>
      rw [List.length_cons] at hfuel
      obtain ⟨fuel, rfl⟩ : ∃ k, fuel = k + 1 := ⟨fuel - 1, by omega⟩
      rw [List.flatMap_cons] at h
      have hstmt := ofText?_render (fun x hx => h x (List.mem_append_left _ hx))
        (stmts.flatMap render ++ rest)
      have hstmts := ih (fun x hx => h x (List.mem_append_right _ hx)) fuel
        (Nat.le_of_succ_le_succ hfuel)
      rw [List.flatMap_cons, List.append_assoc]
      simp [takeAll, hstmt, hstmts]

lemma CStmt.length_le_render (stmts : List CStmt) :
    stmts.length ≤ (stmts.flatMap render).length := by
  induction stmts with
  | nil => exact Nat.zero_le _
  | cons stmt stmts ih =>
      have hend : (Text.ofString ";\n").length = 2 := rfl
      have hpos : 1 ≤ stmt.render.length := by
        cases stmt <;> simp only [render, List.length_append, hend] <;> omega
      rw [List.flatMap_cons, List.length_append, List.length_cons]
      omega

lemma CBody.ofText?_render {body : CBody} (h : ∀ x ∈ body.identifiers, isCName x)
    {start close : Text} (hstart : ∀ t, CStmt.ofText? (start ++ t) = none) {rest : Text}
    (hclose : CExpr.Closes (close ++ rest)) :
    CBody.ofText? start close
        (body.renderStmts ++ (start ++ (body.value.render ++ (close ++ rest)))) =
      some (body, rest) := by
  rw [identifiers] at h
  have hstmts := CStmt.takeAll_render (fun x hx => h x (List.mem_append_left _ hx))
    (hstart (body.value.render ++ (close ++ rest)))
    (body.renderStmts ++ (start ++ (body.value.render ++ (close ++ rest)))).length (by
      rw [List.length_append]
      exact Nat.le_trans (CStmt.length_le_render body.stmts) (Nat.le_add_right _ _))
  have hvalue := body.value.readsBack (fun x hx => h x (List.mem_append_right _ hx))
    ((body.value.render ++ (close ++ rest)).length + 1) (close ++ rest)
    (by rw [List.length_append]; omega) hclose
  rw [← renderStmts] at hstmts
  simp only [ofText?, hstmts, Text.skip?_append, Option.bind_eq_bind, Option.bind_some, hvalue]
  rfl

/-! ### Reading source files back -/

/-- The names that a function definition uses. -/
def CItem.identifiers : CItem → List Text
  | function name env arg body => name :: env :: arg :: body.identifiers
  | main body => body.identifiers

/-- The names that a source file uses. -/
def CUnit.identifiers (unit : CUnit) : List Text := unit.flatMap CItem.identifiers

/-- `return` is a keyword, so a return statement is no assignment. -/
lemma CStmt.ofText?_return (t : Text) : ofText? (Text.ofString "\treturn " ++ t) = none := rfl

lemma CStmt.ofText?_print_val (t : Text) :
    ofText? (Text.ofString "\tprint_val(" ++ t) = none := rfl

lemma CItem.ofText?_render {item : CItem} (h : ∀ x ∈ item.identifiers, isCName x)
    (rest : Text) : ofText? (item.render ++ rest) = some (item, rest) := by
  cases item with
  | function name env arg body =>
      have htext : (function name env arg body).render ++ rest = Text.ofString "val_t *" ++
          (name ++ 40 :: (Text.ofString "val_t **" ++ (env ++ 44 :: (Text.ofString " val_t *" ++
          (arg ++ 41 :: (Text.ofString " \x7b\n" ++ (body.renderStmts ++
          (Text.ofString "\treturn " ++ (body.value.render ++
          (Text.ofString ";\n\x7d" ++ rest)))))))))) := by
        simp only [render, List.append_assoc]
        rfl
      have hname : ∀ t, cName? (name ++ 40 :: t) = some (name, 40 :: t) :=
        cName?_append (h name (by simp [identifiers])) (by decide)
      have henv : ∀ t, cName? (env ++ 44 :: t) = some (env, 44 :: t) :=
        cName?_append (h env (by simp [identifiers])) (by decide)
      have harg : ∀ t, cName? (arg ++ 41 :: t) = some (arg, 41 :: t) :=
        cName?_append (h arg (by simp [identifiers])) (by decide)
      have hopen : ∀ t, skip? "(val_t **" (40 :: (Text.ofString "val_t **" ++ t)) = some t :=
        Text.skip?_append "(val_t **"
      have hcomma : ∀ t, skip? ", val_t *" (44 :: (Text.ofString " val_t *" ++ t)) = some t :=
        Text.skip?_append ", val_t *"
      have hbrace : ∀ t, skip? ") \x7b\n" (41 :: (Text.ofString " \x7b\n" ++ t)) = some t :=
        Text.skip?_append ") \x7b\n"
      have hnames : ∀ x ∈ body.identifiers, isCName x :=
        fun x hx => h x (by simp [identifiers, hx])
      have hclose : CExpr.Closes (Text.ofString ";\n\x7d" ++ rest) := ⟨59, _, rfl, by simp⟩
      have hbody := CBody.ofText?_render hnames CStmt.ofText?_return hclose
      rw [htext]
      simp only [ofText?, Text.skip?_append, hname, hopen, henv, hcomma, harg, hbrace,
        Option.bind_eq_bind, Option.bind_some, hbody]
      rfl
  | main body =>
      have htext : (main body).render ++ rest = Text.ofString "int main(void) \x7b\n" ++
          (body.renderStmts ++ (Text.ofString "\tprint_val(" ++ (body.value.render ++
          (Text.ofString ");\n\treturn 0;\n\x7d" ++ rest)))) := by
        simp only [render, List.append_assoc]
      have hfunction : ∀ t, skip? "val_t *" (Text.ofString "int main(void) \x7b\n" ++ t) = none :=
        fun t => rfl
      have hclose : CExpr.Closes (Text.ofString ");\n\treturn 0;\n\x7d" ++ rest) :=
        ⟨41, _, rfl, by simp⟩
      have hbody := CBody.ofText?_render (show ∀ x ∈ body.identifiers, isCName x from h)
        CStmt.ofText?_print_val hclose
      rw [htext]
      simp only [ofText?, hfunction, Text.skip?_append, Option.bind_eq_bind, Option.bind_some,
        hbody]
      rfl

namespace CUnit

lemma readItems_render {unit : CUnit} (h : ∀ x ∈ unit.identifiers, isCName x) {fuel : Nat}
    (hfuel : unit.length < fuel) :
    readItems fuel ((unit.flatMap fun item => Text.ofString "\n\n" ++ item.render) ++
      Text.ofString "\n") = some unit := by
  induction unit generalizing fuel with
  | nil =>
      obtain ⟨fuel, rfl⟩ : ∃ k, fuel = k + 1 := ⟨fuel - 1, by omega⟩
      rfl
  | cons item unit ih =>
      rw [List.length_cons] at hfuel
      obtain ⟨fuel, rfl⟩ : ∃ k, fuel = k + 1 := ⟨fuel - 1, by omega⟩
      rw [identifiers, List.flatMap_cons] at h
      have hitem := CItem.ofText?_render (fun x hx => h x (List.mem_append_left _ hx))
        ((unit.flatMap fun item => Text.ofString "\n\n" ++ item.render) ++ Text.ofString "\n")
      have hrest := ih (fun x hx => h x (List.mem_append_right _ hx))
        (Nat.lt_of_succ_lt_succ hfuel)
      rw [List.flatMap_cons, List.append_assoc, List.append_assoc]
      simp [readItems, hitem, hrest]

lemma join_cons_eq (sep t : Text) (ts : List Text) :
    Text.join sep (t :: ts) = t ++ ts.flatMap (sep ++ ·) := by
  induction ts generalizing t with
  | nil => simp [Text.join]
  | cons t' ts ih => simp [Text.join, ih]

lemma length_le_flatMap (unit : CUnit) :
    unit.length ≤ (unit.flatMap fun item => Text.ofString "\n\n" ++ item.render).length := by
  have hblank : (Text.ofString "\n\n").length = 2 := rfl
  induction unit with
  | nil => exact Nat.zero_le _
  | cons item unit ih =>
      rw [List.flatMap_cons, List.length_append, List.length_append, List.length_cons, hblank]
      omega

/-- **Source files are read back** if all their names are names of C, so the
text of a file stands for this file and for no other. -/
theorem ofText?_render {unit : CUnit} (h : ∀ x ∈ unit.identifiers, isCName x) :
    ofText? unit.render = some unit := by
  have htext : unit.render = opening ++
      ((unit.flatMap fun item => Text.ofString "\n\n" ++ item.render) ++ Text.ofString "\n") := by
    rw [render, join_cons_eq, List.flatMap_map, List.append_assoc]
  rw [htext, ofText?, Text.skip?_append, Option.bind_eq_bind, Option.bind_some]
  refine readItems_render h ?_
  have hle := length_le_flatMap unit
  rw [List.length_append]
  omega

end CUnit

end FlatClosure
