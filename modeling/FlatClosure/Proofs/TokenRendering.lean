/-
Rendered tokens are scanned back.

The tokens of a source, written with a blank between neighbours, are scanned into
tokens that differ in their positions only. A blank ends every lexeme, so no two
neighbours merge and none is split.

* `IsLexeme.render_token`: the token of a lexeme is rendered as the lexeme.
* `Token.agreeAll_iff`: tokens that agree have the same kinds, lexemes and values.
* `Token.exists_scansTo_rendered`: rendered tokens are scanned one by one.
* `Token.scan_renderAll`: the tokens of a source are scanned back.
-/
import FlatClosure.Proofs.RoundTrip

namespace FlatClosure

/-- The token of a lexeme is rendered as the lexeme. -/
lemma IsLexeme.render_token {l : Lexeme} {value : Nat} (h : IsLexeme l.kind l.text value)
    (pos : Pos) : (l.token pos).render = l.text := by
  obtain ⟨kind, text⟩ := l
  cases h with
  | whole | decimal | symbol => rfl
  | fixed hmem =>
      have hall : ∀ p ∈ fixedLexemes, (Lexeme.token ⟨p.1, p.2⟩ Pos.start).render = p.2 := by
        decide
      exact hall _ hmem

namespace Token

/-- A rendered token and a blank. -/
def spaced (token : Token) : Text := token.render ++ " "

/-- The end token is rendered as nothing, so a blank stands behind every other
token. -/
lemma renderAll_append_endAt (body : List Token) (pos : Pos) :
    renderAll (body ++ [endAt pos]) = body.flatMap spaced := by
  induction body with
  | nil => rfl
  | cons token body ih =>
      have hcons : renderAll (token :: (body ++ [endAt pos])) =
          token.spaced ++ renderAll (body ++ [endAt pos]) := by
        cases body <;> rfl
      rw [List.cons_append, hcons, ih, List.flatMap_cons]

lemma agrees_iff {a b : Token} :
    a.agrees b ↔ a.kind = b.kind ∧ a.lexeme = b.lexeme ∧ a.value = b.value := by
  simp [agrees, and_assoc]

/-- **Agreement of tokens**: they have the same kinds, lexemes and values, place by place. -/
lemma agreeAll_iff {as bs : List Token} :
    agreeAll as bs ↔
      List.Forall₂ (fun a b => a.kind = b.kind ∧ a.lexeme = b.lexeme ∧ a.value = b.value)
        as bs := by
  fun_induction agreeAll as bs with
  | case1 => simp
  | case2 a as b bs ih => rw [Bool.and_eq_true, agrees_iff, ih, List.forall₂_cons]
  | case3 as bs hnil hcons =>
      refine ⟨fun h => absurd h Bool.false_ne_true, fun h => ?_⟩
      cases h with
      | nil => exact absurd rfl (hnil rfl)
      | cons => exact absurd rfl (hcons _ _ _ _ rfl)

lemma agreeAll_append {as as' bs bs' : List Token} (h : agreeAll as bs) (h' : agreeAll as' bs') :
    agreeAll (as ++ as') (bs ++ bs') :=
  agreeAll_iff.mpr (List.rel_append (agreeAll_iff.mp h) (agreeAll_iff.mp h'))

/-- **Rendered tokens are scanned one by one**, each as far as the blank behind
it. -/
lemma exists_scansTo_rendered {body : List Token} (hbody : ∀ token ∈ body, token.IsScanned)
    (before : Text) :
    ∃ again, ScansTo before (body.flatMap spaced) [] again ∧
      agreeAll body again := by
  induction body generalizing before with
  | nil =>
      refine ⟨[], ?_, rfl⟩
      rw [ScansTo, List.flatMap_nil, List.append_nil, List.append_nil, scanFrom]
      rfl
  | cons token body ih =>
      obtain ⟨⟨l, s, pos, hfirst, hvalue, rfl⟩, hrest⟩ := List.forall_mem_cons.mp hbody
      obtain ⟨hlexeme, -⟩ := Lexeme.isLexeme_of_first? hfirst
      obtain ⟨again, hscan, hagree⟩ := ih hrest (before ++ l.text ++ " ")
      refine ⟨l.token before.endPos :: again, ?_, ?_⟩
      · rw [List.flatMap_cons, spaced, hlexeme.render_token, List.append_assoc]
        exact (scansTo_token (hlexeme.longestAt_append (Text.endsLexeme_cons rfl _)) hvalue).append
          (scansTo_blank.append hscan)
      · exact agreeAll_iff.mpr (.cons ⟨rfl, rfl, rfl⟩ (agreeAll_iff.mp hagree))

/-- **The tokens of a source are scanned back** from their renderings with blanks
between them, up to positions. -/
theorem scan_renderAll {source : Text} {tokens : List Token} (h : scan source = .ok tokens) :
    ∃ again, scan (renderAll tokens) = .ok again ∧ agreeAll tokens again := by
  obtain ⟨body, last, rfl, hbody⟩ := exists_of_scanFrom h
  obtain ⟨again, hscan, hagree⟩ := exists_scansTo_rendered hbody []
  rw [ScansTo, List.append_nil, List.nil_append, scanFrom, ← renderAll_append_endAt body last]
    at hscan
  exact ⟨_, hscan, agreeAll_append hagree rfl⟩

/-- Neighbours that would merge if they stood next to each other, and a word that
starts like a keyword. -/
theorem scan_renderAll_neighbours : ∃ tokens again,
    scan "12ab==>funny(5.50" = .ok tokens ∧ renderAll tokens = "12 ab = => funny ( 5.50 " ∧
    scan (renderAll tokens) = .ok again ∧ agreeAll tokens again := by
  have hscan : (scan "12ab==>funny(5.50").map renderAll = .ok "12 ab = => funny ( 5.50 " := by
    decide +kernel
  obtain ⟨tokens, htokens, hrender⟩ := Except.exists_of_map_ok hscan
  obtain ⟨again, hagain, hagree⟩ := scan_renderAll htokens
  exact ⟨tokens, again, htokens, hrender.symm, hagain, hagree⟩

end Token

end FlatClosure
