import Eligibility.Field.Mapping

/-!
# The farmer registry

* `farmerFields`: the fields of a farmer eligibility programme, with their types and categories;
* **`farmerMapping`**: their mapping to the default schema.
-/

namespace Eligibility

/-- Ids, types and categories of the fields of a farmer. -/
def farmerFields : List (String × FieldType × String) :=
  [("fullName", .text, "demographic"),
    ("age", .number, "demographic"),
    ("gender", .lookup, "demographic"),
    ("maritalStatus", .lookup, "demographic"),
    ("isDisabled", .boolean, "demographic"),
    ("district", .lookup, "location"),
    ("village", .text, "location"),
    ("registrationDate", .date, "registration"),
    ("farmSize", .number, "agricultural"),
    ("hasIrrigation", .boolean, "agricultural"),
    ("monthlyIncome", .number, "economic"),
    ("receivesOtherSupport", .boolean, "economic"),
    ("householdSize", .number, "household"),
    ("householdMembers", .grid, "household"),
    ("householdMembers.age", .number, "household"),
    ("householdMembers.sex", .lookup, "household"),
    ("householdMembers.relationship", .lookup, "household"),
    ("householdMembers.isDisabled", .boolean, "household"),
    ("livestock", .grid, "agricultural"),
    ("livestock.type", .lookup, "agricultural"),
    ("livestock.count", .number, "agricultural"),
    ("crops", .grid, "agricultural"),
    ("crops.type", .lookup, "agricultural"),
    ("crops.area", .number, "agricultural")]

def farmerScope : String := "FARMER_ELIGIBILITY"

/-- The definition of the farmer field at a place of the list. Grids can be counted and checked;
the sex of a person is one of two codes, and that of the farmer is only compared for equality. -/
def farmerDefinition (place : Nat) (f : String × FieldType × String) : FieldDefinition :=
  let (id, fieldType, category) := f
  { FieldDefinition.plain id fieldType with
    scope := farmerScope
    category
    displayOrder := .ofNat place
    functions := if fieldType = .grid then [.count, .hasAny, .hasAll, .hasNone] else []
    lookupValues :=
      if id = "gender" ∨ id = "householdMembers.sex" then ["MALE", "FEMALE"] else []
    applicableOperators := if id = "gender" then [.eq, .neq, .isIn] else [] }

/-- The mapping of the farmer registry. -/
def farmerMapping : Mapping :=
  .ofDefinitions farmerScope {} (farmerFields.mapIdx farmerDefinition)

end Eligibility
