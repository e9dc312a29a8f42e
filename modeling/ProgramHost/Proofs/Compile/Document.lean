import ProgramHost.Proofs.Compile.Flight
import ProgramHost.Proofs.Tree
/-!
# The document that the compiler is given

A compilation asks the compiler once, for the text of the tree and nothing else. Nothing of a
tree of data is lost on the way: the text is a compact document, and the tree is read back from
it. Its length is recorded once, in bytes.
-/

namespace ProgramHost

open Json

def Note.length? : Note → Option Nat
  | .serialized n => some n
  | _ => none

/-- The lengths of texts that were recorded. -/
def Journal.lengths (j : Journal) : List Nat := j.notes.filterMap Note.length?

theorem Script.lengths_aftermath (s : Script) (sink : String) :
    (s.aftermath sink).lengths = [] := by
  rw [Journal.lengths, notes_aftermath]
  cases s.product with
  | panic message => rfl
  | complaint c => rfl
  | module b =>
      cases s.flagged with
      | true => rfl
      | false =>
          simp only [Host.notes_accept]
          cases Host.validate b <;> rfl

theorem lengths_compile (parser : Parser) (compiler : Compiler) (s : Settings) (sink : String)
    (id : Nat) (source : String) :
    Journal.lengths (compile parser compiler s sink id source).1 =
      match parser.document source with
      | .error _ => []
      | .ok text => [text.utf8ByteSize] := by
  rw [Journal.lengths, notes_compile]
  cases parser.document source with
  | error e => rfl
  | ok text =>
      have hafter := (compiler id).lengths_aftermath sink
      rw [Journal.lengths] at hafter
      simp only [List.filterMap_append, hafter]
      rfl

theorem utf8ByteSize_eq_length (text : String) :
    text.utf8ByteSize = (Text.Utf8.encode text.toList).length := by
  have hbytes : text.toByteArray = (Text.Utf8.encode text.toList).toByteArray := by
    conv_lhs => rw [← text.ofList_toList, String.toByteArray_ofList]
    rfl
  rw [String.utf8ByteSize, hbytes, List.size_toByteArray]

/-- If a source text has a tree of data, then the compiler is asked once, for the text of the
tree and with the options of the settings. The text is a compact document. The tree is read back
from it, and no other tree of data has this text. One length is recorded, which is that of the
text in UTF-8. -/
theorem compiler_is_given_tree_intact (parser : Parser) (compiler : Compiler) (s : Settings)
    (sink : String) (id : Nat) {source : String} {tree : Tree}
    (htree : (parser source).2 = some tree) (hdata : tree.IsData) :
    ∃ j r n text, compile parser compiler s sink id source = (j, r, n) ∧
      tree.serialize = .ok text ∧
      Journal.requests j = [(text, s.compileOptions)] ∧
      Compact text ∧
      Conveys Tree.ofJson? text tree ∧
      (∀ other : Tree, other.IsData → (other.serialize = .ok text ↔ other = tree)) ∧
      ∃ bytes, bytes = (Text.Utf8.encode text.toList).length ∧ Journal.lengths j = [bytes] ∧
        (Note.serialized bytes).message =
          "Serialized tree is " ++ Numeral.Radix.decimalString bytes ++ " bytes" := by
  obtain ⟨text, htext, hcompact, hconveys⟩ := hdata.exists_serialize_eq
  have hdocument : parser.document source = .ok text :=
    (parser.document_eq_ok_iff source text).2 ⟨tree, htree, htext⟩
  have hasked := requests_compile parser compiler s sink id source
  have hrecorded := lengths_compile parser compiler s sink id source
  rw [hdocument] at hasked hrecorded
  refine ⟨_, _, _, text, rfl, htext, hasked, hcompact, hconveys, fun other hother => ?_,
    text.utf8ByteSize, utf8ByteSize_eq_length text, hrecorded, rfl⟩
  rw [← htext]
  exact hother.serialize_inj hdata

/-- A tree with a key that stands twice, and with a quote, a control character and a letter of
two bytes in its texts. -/
def nested : Tree :=
  .map [(.text "é", .list [.null, .integer (-7), .text "\"\x01"]), (.text "é", .map []),
    (.text "", .bool true)]

theorem nested_isData : nested.IsData := by
  have hitems : Tree.IsData (.list [.null, .integer (-7), .text "\"\x01"]) := by
    refine .list ?_
    simp only [List.forall_mem_cons]
    exact ⟨.null, .integer _, .text _, List.forall_mem_nil _⟩
  have hempty : Tree.IsData (.map []) := .map (List.forall_mem_nil _) (List.forall_mem_nil _)
  refine .map ?_ ?_ <;> simp only [List.forall_mem_cons]
  · exact ⟨⟨_, rfl⟩, ⟨_, rfl⟩, ⟨_, rfl⟩, List.forall_mem_nil _⟩
  · exact ⟨hitems, hempty, .bool true, List.forall_mem_nil _⟩

def nestedText : String :=
  "\x7b\"é\":[null,-7,\"\\\"\\u0001\"],\"é\":\x7b\x7d,\"\":true\x7d"

theorem nested_is_given_intact :
    nested.IsData ∧
      ∃ j r n, compile (fun _ => ([], some nested))
          (fun _ => ⟨[], [], 1, [], .module (.raw Binary.emptyText), []⟩)
          { compileOptions := "-O2" } "main" 0 "x" = (j, r, n) ∧
        Journal.requests j = [(nestedText, "-O2")] ∧
        Compact nestedText ∧
        Conveys Tree.ofJson? nestedText nested ∧
        Journal.lengths j = [43] := by
  have htext : nested.serialize = .ok nestedText := by decide +kernel
  have hlength : (Text.Utf8.encode nestedText.toList).length = 43 := by decide +kernel
  obtain ⟨j, r, n, text, hcompile, hserialize, hasked, hcompact, hconveys, -, bytes, hbytes,
      hrecorded, -⟩ :=
    @compiler_is_given_tree_intact (fun _ => ([], some nested))
      (fun _ => ⟨[], [], 1, [], .module (.raw Binary.emptyText), []⟩)
      { compileOptions := "-O2" } "main" 0 "x" nested rfl nested_isData
  obtain rfl : nestedText = text := Except.ok.inj (htext.symm.trans hserialize)
  refine ⟨nested_isData, j, r, n, hcompile, hasked, hcompact, hconveys, ?_⟩
  rw [hrecorded, hbytes, hlength]

end ProgramHost
