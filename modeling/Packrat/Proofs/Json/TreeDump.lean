import Packrat.Json.CommandLine
import Packrat.Proofs.Json.Decoding
import Packrat.Proofs.Json.Printing

/-! # Trees read off their JSON form

The JSON form of a tree names its sentinels as it would name rules. Two trees have the same form
exactly if they are equal once each sentinel is taken for a token of a rule of its name
(`pretty_dump_eq_iff`), so the form of a tree without rules of those names determines the tree.
A grammar builds only such trees if none of its terminals has one of those names
(`Parser.namesSentinel_of_parseAll`).
-/

namespace Packrat

namespace TokenKind

/-- The rule that has the name of the kind. -/
def unmarked (kind : TokenKind) : TokenKind := .rule kind.name

/-- Whether this is a rule that is called like a sentinel. -/
def namesSentinel : TokenKind → Bool
  | .rule name => name = eof.name || name = empty.name
  | .eof | .empty => false

theorem eq_of_unmarked {kind kind' : TokenKind} (apart : kind.namesSentinel = false)
    (apart' : kind'.namesSentinel = false) (same : kind.unmarked = kind'.unmarked) :
    kind = kind' := by
  cases kind <;> cases kind' <;> simp_all [unmarked, name, namesSentinel]

end TokenKind

namespace Tree

mutual

/-- The tree with tokens of rules in the place of sentinels. -/
def unmarked : Tree → Tree
  | .token leaf => .token { leaf with kind := leaf.kind.unmarked }
  | .named name node => .named name node.unmarked
  | .array nodes => .array (unmarkedAll nodes)

/-- The trees with tokens of rules in the place of sentinels. -/
def unmarkedAll : List Tree → List Tree
  | [] => []
  | node :: more => node.unmarked :: unmarkedAll more

end

mutual

/-- Whether a token of the tree is of a rule that is called like a sentinel. -/
def namesSentinel : Tree → Bool
  | .token leaf => leaf.kind.namesSentinel
  | .named _ node => node.namesSentinel
  | .array nodes => namesSentinelAny nodes

/-- Whether a token of one of the trees is of a rule that is called like a sentinel. -/
def namesSentinelAny : List Tree → Bool
  | [] => false
  | node :: more => node.namesSentinel || namesSentinelAny more

end

mutual

/-- Without rules that are called like sentinels, nothing else is taken for a sentinel. -/
theorem eq_of_unmarked : ∀ (first second : Tree), first.namesSentinel = false →
    second.namesSentinel = false → first.unmarked = second.unmarked → first = second
  | .token ⟨kind, text, start⟩, .token ⟨kind', text', start'⟩, apart, apart', same => by
      simp only [unmarked, Tree.token.injEq, Token.mk.injEq] at same
      obtain ⟨kinds, rfl, rfl⟩ := same
      obtain rfl : kind = kind' := TokenKind.eq_of_unmarked apart apart' kinds
      rfl
  | .named name node, .named name' node', apart, apart', same => by
      simp only [unmarked, Tree.named.injEq] at same
      rw [same.1, eq_of_unmarked node node' apart apart' same.2]
  | .array nodes, .array nodes', apart, apart', same => by
      simp only [unmarked, Tree.array.injEq] at same
      rw [eq_of_unmarkedAll nodes nodes' apart apart' same]
  | .token _, .named .., _, _, same | .token _, .array _, _, _, same
  | .named .., .token _, _, _, same | .named .., .array _, _, _, same
  | .array _, .token _, _, _, same | .array _, .named .., _, _, same => by
      simp only [unmarked, reduceCtorEq] at same

private theorem eq_of_unmarkedAll : ∀ (nodes nodes' : List Tree), namesSentinelAny nodes = false →
    namesSentinelAny nodes' = false → unmarkedAll nodes = unmarkedAll nodes' → nodes = nodes'
  | [], [], _, _, _ => rfl
  | node :: more, node' :: more', apart, apart', same => by
      simp only [namesSentinelAny, Bool.or_eq_false_iff] at apart apart'
      simp only [unmarkedAll, List.cons.injEq] at same
      rw [eq_of_unmarked node node' apart.1 apart'.1 same.1,
        eq_of_unmarkedAll more more' apart.2 apart'.2 same.2]
  | [], _ :: _, _, _, same | _ :: _, [], _, _, same => by
      simp only [unmarkedAll, reduceCtorEq] at same

end

mutual

/-- The JSON form does not tell a sentinel from a token of a rule of its name. -/
theorem dump_unmarked : ∀ tree : Tree, tree.unmarked.dump = tree.dump
  | .token leaf => rfl
  | .named name node => by rw [unmarked, dump, dump, dump_unmarked node]
  | .array nodes => by rw [unmarked, dump, dump, dumpAll_unmarked nodes]

private theorem dumpAll_unmarked : ∀ nodes : List Tree, dumpAll (unmarkedAll nodes) = dumpAll nodes
  | [] => rfl
  | node :: more => by
      rw [unmarkedAll, dumpAll, dumpAll, dump_unmarked node, dumpAll_unmarked more]

end

theorem dump_eq_of_unmarked {first second : Tree} (same : first.unmarked = second.unmarked) :
    first.dump = second.dump := by
  rw [← dump_unmarked first, same, dump_unmarked]

theorem namesSentinelAny_eq_false {nodes : List Tree}
    (each : ∀ node ∈ nodes, node.namesSentinel = false) : namesSentinelAny nodes = false := by
  induction nodes with
  | nil => rfl
  | cons node more ih =>
    obtain ⟨here, others⟩ := List.forall_mem_cons.mp each
    rw [namesSentinelAny, here, ih others, Bool.or_false]

end Tree

/-- The name of the tokens of a terminal. -/
def Terminal.name : Terminal → String
  | .listed name | .inline name _ _ => name

theorem Terminal.name_of_lexical? {leaf : Terminal} {lexicon : Lexicon} {name : String}
    {rule : LexRule} {caseless : Bool}
    (lexical : leaf.lexical? lexicon = some (name, rule, caseless)) : leaf.name = name := by
  cases leaf with
  | listed listed =>
    obtain ⟨rule, -, found⟩ := Option.map_eq_some_iff.mp lexical
    exact congrArg Prod.fst found
  | inline inline _ _ => exact congrArg Prod.fst (Option.some.inj lexical)

namespace Rule

mutual

/-- Whether a terminal of the rule is called like a sentinel. -/
def namesSentinel : Rule → Bool
  | .terminal leaf => (TokenKind.rule leaf.name).namesSentinel
  | .sequence rules | .choice rules | .ordered rules => namesSentinelAny rules
  | .optional rule | .repetition rule _ _ | .absent rule | .ahead rule | .veiled rule =>
      rule.namesSentinel
  | .endOfText | .empty | .reference _ => false

/-- Whether a terminal of one of the rules is called like a sentinel. -/
def namesSentinelAny : List Rule → Bool
  | [] => false
  | rule :: more => rule.namesSentinel || namesSentinelAny more

end

theorem namesSentinel_of_mem {rules : List Rule} (all : namesSentinelAny rules = false)
    {rule : Rule} (member : rule ∈ rules) : rule.namesSentinel = false := by
  induction rules with
  | nil => cases member
  | cons head more ih =>
    obtain ⟨here, others⟩ := Bool.or_eq_false_iff.mp all
    rcases List.mem_cons.mp member with rfl | member
    · exact here
    · exact ih others member

/-- A rule whose terminals are not called like sentinels builds no token that is. -/
theorem Builds.namesSentinel_eq_false {lexicon : Lexicon} {rule : Rule} {tree : Tree}
    (builds : rule.Builds lexicon (fun _ tree => tree.namesSentinel = false) tree)
    (apart : rule.namesSentinel = false) : tree.namesSentinel = false := by
  induction builds with
  | endOfText | empty | without | absent => rfl
  | terminal lexical =>
    rw [namesSentinel, Terminal.name_of_lexical? lexical] at apart
    exact apart
  | @sequence rules nodes long _ ih =>
    refine Tree.namesSentinelAny_eq_false fun node member => ?_
    obtain ⟨index, short, rfl⟩ := List.getElem_of_mem member
    have long' : index < rules.length := long ▸ short
    exact @ih rules[index] nodes[index]
      (List.mem_iff_getElem.mpr ⟨index, by simp [long', short], by simp⟩)
      (namesSentinel_of_mem apart (List.getElem_mem long'))
  | choice among _ ih | ordered among _ ih => exact ih (namesSentinel_of_mem apart among)
  | optional _ ih | ahead _ ih | veiled _ ih => exact ih apart
  | repetition _ _ ih =>
    exact Tree.namesSentinelAny_eq_false fun node member => ih node member apart
  | reference inner => exact inner

end Rule

/-- Whether a terminal of a production is called like a sentinel. -/
def Grammar.namesSentinel (grammar : Grammar) : Bool :=
  grammar.productions.entries.any fun entry => entry.2.namesSentinel

/-- A parser whose terminals are not called like sentinels builds trees without such tokens. -/
theorem Parser.namesSentinel_of_parseAll {parser : Parser}
    (apart : parser.grammar.namesSentinel = false) {production : String} {text : Text} {tree : Tree}
    (parsed : parser.parseAll production text = .ok tree) : tree.namesSentinel = false := by
  have body {name : String} {rule : Rule}
      (declared : parser.grammar.productions.find? name = some rule) : rule.namesSentinel = false :=
    Bool.eq_false_iff.mpr (List.any_eq_false.mp apart _ (Table.mem_of_find? declared))
  obtain ⟨rule, found, declared, gives, -, rfl⟩ := gives_of_parseAll parsed
  have builds : rule.Builds parser.grammar.lexicon (fun _ tree => tree.namesSentinel = false)
      found.node :=
    Grammar.builds_of_gives
      (fun _ _ _ declared builds => builds.namesSentinel_eq_false (body declared)) gives
  exact builds.namesSentinel_eq_false (body declared)

namespace Json

section Prefixes

variable {rest rest' : Text}

/-- A written string ends with its quote, whatever comes after it. -/
theorem printString_append_inj {text text' : String}
    (same : printString text ++ rest = printString text' ++ rest') :
    text = text' ∧ rest = rest' := by
  have spelled (text : String) (rest : Text) :
      printString text ++ rest = '"' :: (text.toList.flatMap escapeChar ++ '"' :: rest) := by
    simp [printString]
  rw [spelled, spelled] at same
  have read := congrArg readBody? (List.cons.inj same).2
  rw [readBody?_escaped, readBody?_escaped] at read
  obtain ⟨chars, rests⟩ := Prod.mk.inj (Option.some.inj read)
  exact ⟨String.toList_inj.mp chars, rests⟩

/-- Decimal digits end before the next character that is no digit. -/
theorem toDigits_append_inj {value value' : Nat} {c c' : Char} (stops : c.isDigit = false)
    (stops' : c'.isDigit = false)
    (same : Nat.toDigits 10 value ++ c :: rest = Nat.toDigits 10 value' ++ c' :: rest') :
    value = value' ∧ c :: rest = c' :: rest' := by
  have run (value : Nat) {c : Char} (stops : c.isDigit = false) (rest : Text) :
      (Nat.toDigits 10 value ++ c :: rest).takeWhile Char.isDigit = Nat.toDigits 10 value := by
    have digits : ∀ d ∈ Nat.toDigits 10 value, d.isDigit = true :=
      fun d member => Nat.isDigit_of_mem_toDigits (by decide) (by decide) member
    rw [List.takeWhile_append_of_pos digits, List.takeWhile_cons_of_neg (by simp [stops]),
      List.append_nil]
  have digits : Nat.toDigits 10 value = Nat.toDigits 10 value' := by
    rw [← run value stops rest, same, run value' stops' rest']
  refine ⟨?_, List.append_cancel_left (digits ▸ same)⟩
  rw [← @Nat.ofDigitChars_ten_toDigits value, digits, Nat.ofDigitChars_ten_toDigits]

theorem printInteger_natCast (value : Nat) : printInteger value = Nat.toDigits 10 value := by
  rw [printInteger, if_neg (by omega), Int.natAbs_natCast]

end Prefixes

section Forms

/-- What follows the type of a token in its form. -/
private theorem print_token (level : Nat) (leaf : Token) (rest : Text) :
    print level (Tree.token leaf).dump ++ rest =
      '\x7b' :: newLine (level + 1) ++ printString "type" ++ ':' :: ' ' ::
        (printString leaf.kind.name ++ (',' :: newLine (level + 1) ++ printString "value" ++
          ':' :: ' ' :: (printString (String.ofList leaf.text) ++
            (',' :: newLine (level + 1) ++ printString "start" ++ ':' :: ' ' ::
              (Nat.toDigits 10 leaf.start ++ ',' :: (newLine (level + 1) ++ printString "end" ++
                ':' :: ' ' :: (Nat.toDigits 10 leaf.stop ++ '\n' ::
                  (List.replicate (2 * level) ' ' ++ '\x7d' :: rest)))))))) := by
  simp only [Tree.dump, print, printMembers, printInteger_natCast, newLine, List.append_assoc,
    List.cons_append, List.nil_append]

private theorem print_named (level : Nat) (name : String) (node : Tree) (rest : Text) :
    print level (Tree.named name node).dump ++ rest =
      '\x7b' :: newLine (level + 1) ++ printString "name" ++ ':' :: ' ' ::
        (printString name ++ (',' :: newLine (level + 1) ++ printString "node" ++ ':' :: ' ' ::
          (print (level + 1) node.dump ++ (newLine level ++ '\x7d' :: rest)))) := by
  simp only [Tree.dump, print, printMembers, List.append_assoc, List.cons_append, List.nil_append]

private theorem print_array (level : Nat) (node : Tree) (more : List Tree) (rest : Text) :
    print level (Tree.array (node :: more)).dump ++ rest =
      '[' :: newLine (level + 1) ++ (print (level + 1) node.dump ++
        (printItems level (Tree.dumpAll more) ++ (newLine level ++ ']' :: rest))) := by
  simp only [Tree.dump, Tree.dumpAll, print, List.append_assoc, List.cons_append, List.nil_append]

private theorem token_of_print {level : Nat} {leaf leaf' : Token} {rest rest' : Text}
    (same : print level (Tree.token leaf).dump ++ rest =
      print level (Tree.token leaf').dump ++ rest') :
    (Tree.token leaf).unmarked = (Tree.token leaf').unmarked ∧ rest = rest' := by
  rw [print_token, print_token] at same
  simp only [List.cons_append, List.append_assoc, List.cons.injEq, List.append_cancel_left_eq,
    true_and] at same
  obtain ⟨names, same⟩ := printString_append_inj same
  simp only [List.cons.injEq, List.append_cancel_left_eq, true_and] at same
  obtain ⟨texts, same⟩ := printString_append_inj same
  simp only [List.cons.injEq, List.append_cancel_left_eq, true_and] at same
  obtain ⟨starts, same⟩ := toDigits_append_inj (by decide) (by decide) same
  simp only [List.cons.injEq, List.append_cancel_left_eq, true_and] at same
  obtain ⟨-, same⟩ := toDigits_append_inj (by decide) (by decide) same
  simp only [List.cons.injEq, List.append_cancel_left_eq, true_and] at same
  refine ⟨?_, same⟩
  simp only [Tree.unmarked, TokenKind.unmarked, names, String.ofList_inj.mp texts, starts]

mutual

/-- A printed form of a tree ends with the tree, whatever comes after it. -/
theorem unmarked_of_print : ∀ (first second : Tree) (level : Nat) (rest rest' : Text),
    print level first.dump ++ rest = print level second.dump ++ rest' →
      first.unmarked = second.unmarked ∧ rest = rest'
  | .token leaf, .token leaf', level, rest, rest', same => token_of_print same
  | .named name node, .named name' node', level, rest, rest', same => by
      rw [print_named, print_named] at same
      simp only [List.cons_append, List.append_assoc, List.cons.injEq, List.append_cancel_left_eq,
        true_and] at same
      obtain ⟨rfl, same⟩ := printString_append_inj same
      simp only [List.cons.injEq, List.append_cancel_left_eq, true_and] at same
      obtain ⟨nodes, same⟩ := unmarked_of_print node node' (level + 1) _ _ same
      simp only [List.cons.injEq, List.append_cancel_left_eq, true_and] at same
      exact ⟨by rw [Tree.unmarked, Tree.unmarked, nodes], same⟩
  | .array [], .array [], level, rest, rest', same => ⟨rfl, List.append_cancel_left same⟩
  | .array (node :: more), .array (node' :: more'), level, rest, rest', same => by
      rw [print_array, print_array] at same
      simp only [List.cons_append, List.cons.injEq, List.append_cancel_left_eq, true_and] at same
      obtain ⟨heads, same⟩ := unmarked_of_print node node' (level + 1) _ _ same
      obtain ⟨tails, same⟩ := unmarkedAll_of_printItems more more' level _ _ same
      refine ⟨?_, same⟩
      rw [Tree.unmarked, Tree.unmarked, Tree.unmarkedAll, Tree.unmarkedAll, heads, tails]
  | .array [], .array (_ :: _), level, rest, rest', same => by
      rw [print_array] at same
      simp [Tree.dump, Tree.dumpAll, print, newLine] at same
  | .array (_ :: _), .array [], level, rest, rest', same => by
      rw [print_array] at same
      simp [Tree.dump, Tree.dumpAll, print, newLine] at same
  | .token _, .named .., level, rest, rest', same => by
      rw [print_token, print_named] at same
      simp only [List.cons_append, List.append_assoc, List.cons.injEq, List.append_cancel_left_eq,
        true_and] at same
      exact absurd (printString_append_inj same).1 (by decide)
  | .named .., .token _, level, rest, rest', same => by
      rw [print_token, print_named] at same
      simp only [List.cons_append, List.append_assoc, List.cons.injEq, List.append_cancel_left_eq,
        true_and] at same
      exact absurd (printString_append_inj same).1 (by decide)
  | .token _, .array nodes, level, rest, rest', same => by
      cases nodes <;> simp [Tree.dump, Tree.dumpAll, print] at same
  | .named .., .array nodes, level, rest, rest', same => by
      cases nodes <;> simp [Tree.dump, Tree.dumpAll, print] at same
  | .array nodes, .token _, level, rest, rest', same => by
      cases nodes <;> simp [Tree.dump, Tree.dumpAll, print] at same
  | .array nodes, .named .., level, rest, rest', same => by
      cases nodes <;> simp [Tree.dump, Tree.dumpAll, print] at same

private theorem unmarkedAll_of_printItems : ∀ (nodes nodes' : List Tree) (level : Nat)
    (rest rest' : Text),
    printItems level (Tree.dumpAll nodes) ++ (newLine level ++ ']' :: rest) =
      printItems level (Tree.dumpAll nodes') ++ (newLine level ++ ']' :: rest') →
      Tree.unmarkedAll nodes = Tree.unmarkedAll nodes' ∧ rest = rest'
  | [], [], level, rest, rest', same => by
      simp only [Tree.dumpAll, printItems, List.nil_append, List.append_cancel_left_eq,
        List.cons.injEq, true_and] at same
      exact ⟨rfl, same⟩
  | node :: more, node' :: more', level, rest, rest', same => by
      simp only [Tree.dumpAll, printItems, List.cons_append, List.append_assoc, List.cons.injEq,
        List.append_cancel_left_eq, true_and] at same
      obtain ⟨heads, same⟩ := unmarked_of_print node node' (level + 1) _ _ same
      obtain ⟨tails, same⟩ := unmarkedAll_of_printItems more more' level _ _ same
      exact ⟨by rw [Tree.unmarkedAll, Tree.unmarkedAll, heads, tails], same⟩
  | [], _ :: _, level, rest, rest', same => by
      simp [Tree.dumpAll, printItems, newLine] at same
  | _ :: _, [], level, rest, rest', same => by
      simp [Tree.dumpAll, printItems, newLine] at same

end

/-- Two trees have one printed form exactly if they differ in no more than which tokens are
sentinels and which are of rules of their names. -/
theorem pretty_dump_eq_iff {first second : Tree} :
    first.dump.pretty = second.dump.pretty ↔ first.unmarked = second.unmarked := by
  constructor
  · intro same
    refine (unmarked_of_print first second 0 [] [] ?_).1
    rw [List.append_nil, List.append_nil]
    exact same
  · intro same
    rw [Tree.dump_eq_of_unmarked same]

theorem dump_eq_iff {first second : Tree} :
    first.dump = second.dump ↔ first.unmarked = second.unmarked :=
  ⟨fun same => pretty_dump_eq_iff.mp (congrArg Value.pretty same), Tree.dump_eq_of_unmarked⟩

end Forms

/-- What is printed for the tree of a text is its form. -/
theorem normalize_true_eq_ok_iff {text output : Text} :
    normalize true text = .ok output ↔
      ∃ tree, parser.parseAll "value" text = .ok tree ∧ tree.dump.pretty = output := by
  cases parsed : parser.parseAll "value" text with
  | error fault =>
    rw [normalize, parsed]
    exact ⟨nofun, nofun⟩
  | ok tree =>
    rw [normalize, parsed]
    constructor
    · rintro ⟨⟩
      exact ⟨tree, rfl, rfl⟩
    · rintro ⟨_, ⟨⟩, rfl⟩
      rfl

/-- The JSON form of a tree, printed or not, determines the tree up to which of its tokens are
sentinels and which are of rules that are called like them, and determines it fully where no token
is of such a rule. What the command prints for the tree of a text determines the tree. -/
theorem tree_of_dump :
    (∀ first second : Tree,
      (first.dump = second.dump ↔ first.unmarked = second.unmarked) ∧
      (first.dump.pretty = second.dump.pretty ↔ first.unmarked = second.unmarked)) ∧
    (∀ first second : Tree, first.namesSentinel = false → second.namesSentinel = false →
      first.dump = second.dump ∨ first.dump.pretty = second.dump.pretty → first = second) ∧
    ∀ text text' output : Text, normalize true text = .ok output →
      normalize true text' = .ok output → ∃ tree, parser.parseAll "value" text = .ok tree ∧
        parser.parseAll "value" text' = .ok tree := by
  have determined (first second : Tree) (apart : first.namesSentinel = false)
      (apart' : second.namesSentinel = false)
      (same : first.dump.pretty = second.dump.pretty) : first = second :=
    Tree.eq_of_unmarked first second apart apart' (pretty_dump_eq_iff.mp same)
  refine ⟨fun first second => ⟨dump_eq_iff, pretty_dump_eq_iff⟩, ?_, ?_⟩
  · intro first second apart apart' same
    exact determined first second apart apart' (same.elim (congrArg Value.pretty) id)
  intro text text' output printed printed'
  obtain ⟨tree, ran, written⟩ := normalize_true_eq_ok_iff.mp printed
  obtain ⟨tree', ran', written'⟩ := normalize_true_eq_ok_iff.mp printed'
  have apart : parser.grammar.namesSentinel = false := by decide +kernel
  obtain rfl : tree = tree' :=
    determined tree tree' (Parser.namesSentinel_of_parseAll apart ran)
      (Parser.namesSentinel_of_parseAll apart ran') (written.trans written'.symm)
  exact ⟨tree, ran, ran'⟩

theorem tree_of_dump_null :
    (∃ output tree, normalize true "null".toList = .ok output ∧
      parser.parseAll "value" "null".toList = .ok tree) ∧
    (Tree.array [.token (.empty 4)]).namesSentinel = false ∧
      Tree.array [.token (.empty 4)] = .array [.token ⟨.empty, "".toList, 4⟩] := by
  obtain ⟨-, determined, printed⟩ := tree_of_dump
  refine ⟨?_, by decide, determined _ _ (by decide) (by decide) (.inl rfl)⟩
  have writes : Document.null.Writes "null".toList := Document.null.writes_flatten
  obtain ⟨tree, parsed, -⟩ := parseAll_of_writes writes
  have output : normalize true "null".toList = .ok tree.dump.pretty :=
    normalize_true_eq_ok_iff.mpr ⟨tree, parsed, rfl⟩
  obtain ⟨tree, parsed, -⟩ := printed _ _ _ output output
  exact ⟨_, tree, output, parsed⟩

/-- The end of a text and an empty token of a rule `EOF` there have the same form, although only
the token is a terminal and has a span. -/
theorem dump_rule_called_eof :
    let leaf : Tree := .token ⟨.rule "EOF", [], 0⟩
    let sentinel : Tree := .token (.eof 0)
    leaf.dump = sentinel.dump ∧ leaf ≠ sentinel ∧ leaf.terminals ≠ sentinel.terminals ∧
      leaf.span ≠ sentinel.span :=
  ⟨rfl, by decide, by decide, by decide⟩

end Json

end Packrat
