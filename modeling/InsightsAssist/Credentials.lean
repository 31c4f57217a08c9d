import InsightsAssist.Java

/-! The checks that the login and user administration actions make of their parameters. -/
namespace InsightsAssist

def isAddressChar (c : Char) : Bool := c.isAlphanum || c = '_' || c = '-' || c = '.'

/-- `^([A-Za-z0-9_\-\.])+\@([A-Za-z0-9_\-\.])+\.([A-Za-z]{2,4})$` on the whole input: some
'@' and some later '.' cut it into three parts of the right characters. -/
def matchesEmailPattern (email : String) : Bool :=
  let cs := email.toList
  (List.range cs.length).any fun dot => cs[dot]? = some '.' &&
    (cs.drop (dot + 1)).all Char.isAlpha &&
    2 ≤ (cs.drop (dot + 1)).length && (cs.drop (dot + 1)).length ≤ 4 &&
    (List.range dot).any fun at' => cs[at']? = some '@' &&
      at' ≠ 0 && (cs.take at').all isAddressChar &&
      at' + 1 < dot && ((cs.take dot).drop (at' + 1)).all isAddressChar

/-- jOOQ's `StringUtils.isEmpty`. -/
def isEmpty (s : Option String) : Bool := s = none || s = some ""

end InsightsAssist
