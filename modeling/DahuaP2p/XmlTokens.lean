import DahuaP2p.BigEndian

/-! # XML documents and their token streams

* `Token`: what a streaming XML decoder emits.
* `Content`: the content of an element or of a whole document, as a tree.
* `Content.tokens` is the token stream of a tree; `Content.located` is the same stream in which each
  token carries the path of local names of the elements around it. -/

namespace Xml

open BigEndian

structure Name where
  space : Bytes
  localName : Bytes
deriving DecidableEq, Repr

/-- A token; attributes are left out, and comments, directives and processing instructions are
`other`. -/
inductive Token where
  | startElement (name : Name)
  | endElement (name : Name)
  | charData (data : Bytes)
  | other
deriving DecidableEq, Repr

/-- What stands in an element: nothing, or an item and what comes after it. -/
inductive Content where
  | nil
  | text (data : Bytes) (rest : Content)
  | other (rest : Content)
  | element (name : Name) (inner rest : Content)

namespace Content

/-- The token stream. -/
def tokens : Content → List Token
  | nil => []
  | text data rest => .charData data :: rest.tokens
  | other rest => .other :: rest.tokens
  | element name inner rest =>
      .startElement name :: (inner.tokens ++ .endElement name :: rest.tokens)

/-- The token stream of the content of the element at `path`, each token with the path of the
element in which it stands. -/
def located (path : List Bytes) : Content → List (List Bytes × Token)
  | nil => []
  | text data rest => (path, .charData data) :: rest.located path
  | other rest => (path, .other) :: rest.located path
  | element name inner rest => (path, .startElement name) ::
      (inner.located (path ++ [name.localName]) ++ (path, .endElement name) :: rest.located path)

theorem located_map_snd (path : List Bytes) (c : Content) :
    (c.located path).map Prod.snd = c.tokens := by
  induction c generalizing path with
  | nil => rfl
  | text data rest ih => rw [located, tokens, List.map_cons, ih]
  | other rest ih => rw [located, tokens, List.map_cons, ih]
  | element name inner rest ih ih' =>
      rw [located, tokens, List.map_cons, List.map_append, List.map_cons, ih, ih']

theorem located_length (path : List Bytes) (c : Content) :
    (c.located path).length = c.tokens.length := by
  rw [← located_map_snd path, List.length_map]

end Content

end Xml
