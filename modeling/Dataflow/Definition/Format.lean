/-!
The formats of definition documents, and how the path of a document tells its format.
-/

namespace Dataflow

inductive Format where
  | yaml
  | json
  | toml
deriving DecidableEq, Inhabited

namespace Format

def name : Format → String
  | yaml => "yaml"
  | json => "json"
  | toml => "toml"

def title : Format → String
  | yaml => "YAML"
  | json => "JSON"
  | toml => "TOML"

/-- The pieces of a path between its slashes. -/
def pieces (path : List Char) : List (List Char) :=
  path.foldr (fun c acc => if c = '/' then [] :: acc else (acc.headD []).cons c :: acc.tail) [[]]

/-- The name at the end of a path. A slash, or a dot that stands alone after one, may follow it;
two dots are not a name, and neither is a dot that is all there is. -/
def lastName? (path : List Char) : Option (List Char) :=
  match (pieces path).reverse.dropWhile fun piece => piece = [] || piece = ['.'] with
  | [] => none
  | piece :: _ => if piece = ['.', '.'] then none else some piece

/-- What follows the last dot of a name. A dot in front belongs to the name. -/
def extension? (name : List Char) : Option (List Char) :=
  match name.reverse.span (· ≠ '.') with
  | (_, []) => none
  | (_, [_]) => none
  | (ext, _) => some ext.reverse

/-- The format of the document at a path. The case of ASCII letters does not matter. -/
def ofPath? (path : String) : Option Format :=
  match ((lastName? path.toList).bind extension?).map fun ext => (String.ofList ext).toLower with
  | some "yaml" => some yaml
  | some "yml" => some yaml
  | some "json" => some json
  | some "toml" => some toml
  | _ => none

end Format

end Dataflow
