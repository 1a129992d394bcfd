import TriggerScript.Proofs.Parsing.Returns
import TriggerScript.Proofs.Token.Quotations

/-!
Hooks of a source are read from what their strings say.

The text of a hook is cut out of the source by the range of its string, without the quotes, and its
escapes are resolved once more. For a string of the source itself this gives what the string says.
In a hook the quotes of a string are escapes and take two characters.
-/

namespace TriggerScript

open List Placed Scanner

namespace Expr

variable {grammar : Grammar}

theorem hook_text_of_cut {token : Token} {before raw behind : List Char}
    (whole : grammar.source.toList = before ++ (raw ++ ['"'] ++ behind))
    (start : token.span.start + 1 = total Char.utf8Size before)
    (stop : token.span.stop = total Char.utf8Size (before ++ (raw ++ ['"']))) :
    (hookText grammar token).rest = decodeBody (ofList (total Char.utf8Size before) raw) := by
  have cut := slice_of_append whole
  rw [← total_append, ← stop, ← start] at cut
  rw [hook_text_eq, hook_raw_of_slice cut, ← start]
  simp [Scanner.ofPlaced, unquoted]

/-- The text of a hook that a plain string of the source holds is what the string says. -/
theorem hook_text_of_string (unreturned : '\r' ∉ grammar.source.toList) {count offset : Nat}
    {scanner : Scanner}
    (reached : (ofText grammar.vocabulary grammar.source 0).following count = scanner)
    (kept : scanner.pending = none) {content : List Placed}
    (ahead : (scanner.rest.dropWhile fun placed => isBlank placed.char) = ⟨offset, '"'⟩ :: content)
    (closed : (Literal.read scanner.stop content).ending = .closed) :
    scanner.next.1.kind = .string ∧ chars (hookText grammar scanner.next.1).rest =
      scanner.next.1.text.toList := by
  obtain ⟨before, raw, behind, quotes, -⟩ := quotes_of_closed unreturned reached kept ahead closed
  rw [quotes.token]
  refine ⟨rfl, ?_⟩
  rw [hook_text_of_cut quotes.source (total_quote before).symm rfl]
  exact String.toList_ofList.symm

/-- In the string the quotes are escaped, and the text has them without the escapes. -/
theorem hook_text_of_quoted :
    let grammar := Grammar.ofTables "\"g(\\\"k\\\")\"" .builtin .empty
    chars (hookText grammar (ofText grammar.vocabulary grammar.source 0).next.1).rest =
      ['g', '(', '"', 'k', '"', ')'] :=
  (hook_text_of_string (by decide +kernel) (show following _ 0 = _ from rfl) rfl (by rfl)
    (by decide +kernel)).2.trans
    (by decide +kernel)

/-- The same string is read as a hook, and in the text of a hook it is not. -/
theorem hook_in_hook_rejected :
    (Grammar.ofTables "[proc,f]() hook(\"k\");" .builtin Grammar.hookTable).scripts.1.length = 1 ∧
    (Grammar.ofTables "[proc,f]() hook(\"g(hook(\\\"k\\\"))\");" .builtin
      Grammar.hookTable).scripts.1.length = 0 := by
  decide +kernel

end Expr

end TriggerScript
