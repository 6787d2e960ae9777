import ItemSchema.Codec.Decoding
import ItemSchema.Expression.Alias
import ItemSchema.Text.Blank

/-! How the requests of one table are written and its items read. -/
namespace ItemSchema

structure TableConfig where
  tableName : String
  stems : AliasStems
  mode : DecodeMode
  /-- Requested wherever a request does not ask for another one. -/
  capacity : Option CapacityLevel

namespace TableConfig

def ofName (tableName : String) : TableConfig :=
  ⟨tableName, .standard, .strict, none⟩

/-- The store takes letters, digits and underscores behind the marker of an alias. -/
def isStem (marker : Char) : List Char → Bool
  | first :: rest => first = marker && !rest.isEmpty && rest.all fun c => c.isAlphanum || c = '_'
  | [] => false

def checkStem (stem : String) (marker : Char) : Except Error Unit :=
  if isStem marker stem.toList then .ok () else .error (.invalidConfig (.aliasStem stem marker))

def check (config : TableConfig) : Except Error Unit := do
  if Text.isBlankText config.tableName then throw (.invalidConfig .emptyTableName)
  checkStem config.stems.name '#'
  checkStem config.stems.value ':'

end TableConfig

end ItemSchema
