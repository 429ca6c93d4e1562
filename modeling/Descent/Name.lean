/-
# Names without regard to case

Options are chosen by name, and a name is read in any mixture of cases.

* `foldCase` : the lower-case form of a name;
* `findName?` : the value that a table lists under a name.
-/

namespace Descent

/-- The lower case of a character.  Beside the capitals of the basic alphabet
only the Kelvin sign has a lower case within that alphabet; every other
character is left alone, since no listed name contains its lower case. -/
def foldChar (c : Char) : Char :=
  if c = '\u212A' then 'k' else c.toLower

/-- A name with every character in lower case. -/
def foldCase (name : String) : String :=
  name.map foldChar

/-- The value listed under a name, whatever the case of the name. -/
def findName? {β : Type} (table : List (String × β)) (name : String) : Option β :=
  table.lookup (foldCase name)

/-- Names with the same lower case find the same value. -/
theorem findName?_congr {β : Type} (table : List (String × β)) {name other : String}
    (h : foldCase name = foldCase other) :
    findName? table name = findName? table other := by
  simp [findName?, h]

end Descent
