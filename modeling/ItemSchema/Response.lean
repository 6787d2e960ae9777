import ItemSchema.Numeral.Binary64
import ItemSchema.Wire

/-! What the store answers. Items are as they are stored. -/
namespace ItemSchema

structure ConsumedCapacity where
  tableName : String
  units : Option Binary64

/-- Searches answer with items, `get` with an item, and writes with attributes. -/
structure Response where
  items : List Item
  item : Option Item
  attributes : Option Item
  consumed : Option ConsumedCapacity

end ItemSchema
