import ItemSchema.Json.Reading
import ItemSchema.Request.Option

/-! Options of requests from JSON, by the names they have in a request. -/
namespace ItemSchema

def CapacityLevel.ofJson : Json → Except ReadError CapacityLevel :=
  Json.readVariant false (all.map fun level => (level.name, level))

def ReturnValues.ofJson : Json → Except ReadError ReturnValues :=
  Json.readVariant false (all.map fun mode => (mode.name, mode))

def CollectionMetrics.ofJson : Json → Except ReadError CollectionMetrics :=
  Json.readVariant false (all.map fun metrics => (metrics.name, metrics))

end ItemSchema
