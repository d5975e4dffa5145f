import Lyra.Lib.PercentEncoding

/-!
# XML documents

The syntax of a well-formed document without a document type, as a forest: the markup, the
first child and the next sibling.  A document is written as its text, and read by the local
names of its elements and by their text.
-/

namespace Lyra.Lib

/-! ## Names -/

def isXmlSpace (c : Char) : Bool := [' ', '\t', '\n', '\r'].contains c

/-- A character that can stand in a name. -/
def isXmlNameChar (c : Char) : Bool :=
  !(isXmlSpace c || ['<', '>', '&', '"', '\'', '/', '=', ':', '!', '?', '['].contains c)

/-- A part of a name, before or after the colon. -/
structure XmlWord where
  chars : List Char
  nonempty : chars ≠ []
  plain : ∀ c ∈ chars, isXmlNameChar c = true

structure XmlName where
  space : Option XmlWord
  base : XmlWord

def XmlName.render (n : XmlName) : List Char :=
  match n.space with
  | none => n.base.chars
  | some p => p.chars ++ ':' :: n.base.chars

structure XmlSpaces where
  chars : List Char
  plain : ∀ c ∈ chars, isXmlSpace c = true

/-! ## Tags -/

structure XmlAttribute where
  gap : XmlSpaces
  apart : gap.chars ≠ []
  name : XmlName
  before : XmlSpaces
  after : XmlSpaces
  quote : Char
  value : List Char
  quoted : quote = '"' ∨ quote = '\''
  plain : '<' ∉ value ∧ quote ∉ value

def XmlAttribute.render (a : XmlAttribute) : List Char :=
  a.gap.chars ++ (a.name.render ++ (a.before.chars ++ '=' ::
    (a.after.chars ++ a.quote :: (a.value ++ [a.quote]))))

/-- What stands between the brackets of an opening tag. -/
structure XmlTag where
  name : XmlName
  attributes : List XmlAttribute
  trailing : XmlSpaces

def XmlTag.tail (t : XmlTag) : List Char := t.attributes.flatMap XmlAttribute.render ++ t.trailing.chars

/-- Whether this is the local name of a tag. -/
def XmlTag.named (name : List Char) (t : XmlTag) : Bool := t.name.base.chars == name

def XmlTag.render (t : XmlTag) : List Char := t.name.render ++ t.tail

/-! ## Characters -/

inductive XmlRef
  | amp
  | lt
  | gt
  | quot
  | apos
  | decimal (digits : List Char) (plain : digits ≠ [] ∧ ∀ c ∈ digits, c.isDigit = true)
  | hexadecimal (digits : List Char) (plain : digits ≠ [] ∧ ∀ c ∈ digits, (hexNumber c).isSome = true)

def XmlRef.render : XmlRef → List Char
  | amp => "&amp;".toList
  | lt => "&lt;".toList
  | gt => "&gt;".toList
  | quot => "&quot;".toList
  | apos => "&apos;".toList
  | decimal digits _ => "&#".toList ++ digits ++ [';']
  | hexadecimal digits _ => "&#x".toList ++ digits ++ [';']

def XmlRef.char : XmlRef → Char
  | amp => '&'
  | lt => '<'
  | gt => '>'
  | quot => '"'
  | apos => '\''
  | decimal digits _ => Char.ofNat (digits.foldl (fun n c => 10 * n + (c.toNat - '0'.toNat)) 0)
  | hexadecimal digits _ => Char.ofNat (digits.foldl (fun n c => 16 * n + (hexNumber c).getD 0) 0)

/-- A parser reads every line end as a line feed. -/
def normalizeLines : List Char → List Char
  | '\r' :: '\n' :: s => '\n' :: normalizeLines s
  | '\r' :: s => '\n' :: normalizeLines s
  | c :: s => c :: normalizeLines s
  | [] => []

theorem normalizeLines_of_not_mem {s : List Char} (h : '\r' ∉ s) : normalizeLines s = s := by
  induction s with
  | nil => rfl
  | cons c s ih =>
    obtain ⟨hc, hs⟩ := List.ne_and_not_mem_of_not_mem_cons h
    rw [normalizeLines, ih hs]
    · rintro s' rfl
      exact absurd rfl hc
    · rintro rfl
      exact absurd rfl hc

inductive XmlLeaf
  | text (s : List Char) (plain : '<' ∉ s ∧ '&' ∉ s)
  | ref (r : XmlRef)
  | cdata (s : List Char) (plain : ∀ a b, s ≠ a ++ (']' :: ']' :: '>' :: b))
  | comment (s : List Char) (plain : ∀ a b, s ++ ['-'] ≠ a ++ ('-' :: '-' :: b))
  | instruction (s : List Char) (plain : ∀ a b, s ≠ a ++ ('?' :: '>' :: b))

def cdataStart : List Char := "<![CDATA[".toList
def cdataStop : List Char := "]]>".toList
def commentStart : List Char := "<!--".toList
def commentStop : List Char := "-->".toList
def instructionStart : List Char := "<?".toList
def instructionStop : List Char := "?>".toList

def XmlLeaf.render : XmlLeaf → List Char
  | text s _ => s
  | ref r => r.render
  | cdata s _ => cdataStart ++ (s ++ cdataStop)
  | comment s _ => commentStart ++ (s ++ commentStop)
  | instruction s _ => instructionStart ++ (s ++ instructionStop)

def XmlLeaf.content : XmlLeaf → List Char
  | text s _ => normalizeLines s
  | ref r => [r.char]
  | cdata s _ => normalizeLines s
  | comment _ _ => []
  | instruction _ _ => []

/-! ## Forests -/

inductive XmlForest
  | nil
  | leaf (l : XmlLeaf) (rest : XmlForest)
  | empty (t : XmlTag) (rest : XmlForest)
  | node (t : XmlTag) (close : XmlSpaces) (children rest : XmlForest)

namespace XmlForest

def openText (t : XmlTag) : List Char := '<' :: (t.render ++ ['>'])

def emptyText (t : XmlTag) : List Char := '<' :: (t.render ++ "/>".toList)

def closeText (t : XmlTag) (close : XmlSpaces) : List Char :=
  "</".toList ++ (t.name.render ++ (close.chars ++ ['>']))

def render : XmlForest → List Char
  | nil => []
  | leaf l rest => l.render ++ render rest
  | empty t rest => emptyText t ++ render rest
  | node t close children rest =>
    openText t ++ (render children ++ (closeText t close ++ render rest))

/-- The text of the elements, one after the other. -/
def content : XmlForest → List Char
  | nil => []
  | leaf l rest => l.content ++ content rest
  | empty _ rest => content rest
  | node _ _ children rest => content children ++ content rest

/-- The first element with a local name, in the order of the document, alone. -/
def first (name : List Char) : XmlForest → Option XmlForest
  | nil => none
  | leaf _ rest => first name rest
  | empty t rest => if t.named name then some (empty t nil) else first name rest
  | node t close children rest =>
    if t.named name then some (node t close children nil)
    else (first name children).or (first name rest)

/-- The elements with a local name that are in no other such element. -/
def outermost (name : List Char) : XmlForest → List XmlForest
  | nil => []
  | leaf _ rest => outermost name rest
  | empty t rest =>
    if t.named name then empty t nil :: outermost name rest else outermost name rest
  | node t close children rest =>
    if t.named name then node t close children nil :: outermost name rest
    else outermost name children ++ outermost name rest

/-- The elements that are no children of others, each alone. -/
def children : XmlForest → List XmlForest
  | nil => []
  | leaf _ rest => rest.children
  | empty t rest => empty t nil :: rest.children
  | node t close inner rest => node t close inner nil :: rest.children

end XmlForest

end Lyra.Lib
