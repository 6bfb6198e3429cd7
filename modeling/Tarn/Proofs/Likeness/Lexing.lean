import Tarn.Proofs.Lexing.Scan
import Tarn.Proofs.Likeness.Trees

/-! Lexing one text with different tables. The tokens differ in the numbers of their names only. -/
namespace Tarn

/-- With another table the same text spells the same token, up to its name. -/
theorem Spells.transport {t t₁ : NameTable} {text : List Char} {kind : TokenKind}
    (h : Spells t text kind t₁) (u : NameTable) :
    t.Extends t₁ ∧ ∃ kind' u₁, Spells u text kind' u₁ ∧ u.Extends u₁ ∧
      ∀ place, TokenKind.Alike ⟨t₁, u₁, place⟩ kind kind' := by
  cases h with
  | symbol s => exact ⟨.refl t, _, u, .symbol s, .refl u, fun _ => .symbol s⟩
  | keyword k => exact ⟨.refl t, _, u, .keyword k, .refl u, fun _ => .keyword k⟩
  | number h => exact ⟨.refl t, _, u, .number h, .refl u, fun _ => .number _⟩
  | identifier h hk => exact ⟨t.extends_intern _, _, _, .identifier h hk, u.extends_intern _,
      fun _ => .identifier (.intern t u _)⟩
  | string h => exact ⟨t.extends_intern _, _, _, .string h, u.extends_intern _,
      fun _ => .string (.intern t u _)⟩

/-- With another table the same text scans to the same errors and, up to names, the same tokens. -/
theorem Scan.transport {drops : Char → Bool} {t t' : NameTable} {offset : Nat} {cs : List Char}
    {tokens : List Token} {errors : List LexError} (h : Scan drops t offset cs tokens errors t')
    (u : NameTable) : t.Extends t' ∧ ∃ tokens' u', Scan drops u offset cs tokens' errors u' ∧
      u.Extends u' ∧ List.Forall₂ (Token.Alike (.inPlace t' u')) tokens tokens' := by
  induction h generalizing u with
  | @done t => exact ⟨.refl t, [], u, .done, .refl u, .nil⟩
  | token h hlongest _ ih =>
    obtain ⟨ht, kind, u₁, hs, hu, hkind⟩ := h.transport u
    obtain ⟨ht', tokens', u', hrest, hu', htokens⟩ := ih u₁
    refine ⟨ht.trans ht', _, u', .token hs hlongest hrest, hu.trans hu', .cons ⟨?_, rfl⟩ htokens⟩
    exact (hkind Eq).imp (Likeness.namesIn_of_extends ht' hu')
  | blank h hlongest _ ih =>
    obtain ⟨ht, tokens', u', hrest, hu, htokens⟩ := ih u
    exact ⟨ht, tokens', u', .blank h hlongest hrest, hu, htokens⟩
  | comment h hlongest _ ih =>
    obtain ⟨ht, tokens', u', hrest, hu, htokens⟩ := ih u
    exact ⟨ht, tokens', u', .comment h hlongest hrest, hu, htokens⟩
  | @openString t _ _ h => exact ⟨.refl t, [], u, .openString h, .refl u, .nil⟩
  | unexpected h hc _ ih =>
    obtain ⟨ht, tokens', u', hrest, hu, htokens⟩ := ih u
    exact ⟨ht, tokens', u', .unexpected h hc hrest, hu, htokens⟩
  | dropped h hc _ ih =>
    obtain ⟨ht, tokens', u', hrest, hu, htokens⟩ := ih u
    exact ⟨ht, tokens', u', .dropped h hc hrest, hu, htokens⟩

/-- The tokens of any text end with the end of file, which comes only there. -/
theorem lex_tokens (source : String) (t : NameTable) : ∃ ts span,
    (lex source t).tokens = ts ++ [⟨.eof, span⟩] ∧ ∀ token ∈ ts, token.kind ≠ .eof := by
  by_cases hsize : source.utf8ByteSize ≤ Span.maxOffset
  · obtain ⟨tokens, errors, names, h⟩ := Scan.exists_scan Text.isBlank t 0 source.toList
    rw [h.lex_eq hsize]
    exact ⟨tokens, _, rfl, fun token ht => (h.mem_tokens token ht).2⟩
  · rw [lex, Lexer.start, if_pos (Nat.not_le.1 hsize)]
    exact ⟨[], Span.point 0, rfl, List.forall_mem_nil _⟩

/-- What a text is lexed to does not depend on the texts that were read before it. -/
theorem lex_alike (source : String) (t u : NameTable) :
    t.Extends (lex source t).names ∧ (lex source t).errors = (lex source u).errors ∧
      List.Forall₂ (Token.Alike (.inPlace (lex source t).names (lex source u).names))
        (lex source t).tokens (lex source u).tokens := by
  by_cases hsize : source.utf8ByteSize ≤ Span.maxOffset
  · obtain ⟨tokens, errors, t', h⟩ := Scan.exists_scan Text.isBlank t 0 source.toList
    obtain ⟨ht, tokens', u', h', -, htokens⟩ := h.transport u
    rw [h.lex_eq hsize, h'.lex_eq hsize]
    exact ⟨ht, rfl, List.rel_append htokens (.cons ⟨.eof, rfl⟩ .nil)⟩
  · rw [lex, lex, Lexer.start, Lexer.start, if_pos (Nat.not_le.1 hsize),
      if_pos (Nat.not_le.1 hsize)]
    exact ⟨.refl t, rfl, .cons ⟨.eof, rfl⟩ .nil⟩

end Tarn
