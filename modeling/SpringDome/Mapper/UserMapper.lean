/-
SpringDome.Mapper.UserMapper — `UserMapper.xml` and `UserMapper.java`.

The templates keep every text node of the file, line breaks and indentation
included: a `trim` or a `foreach` joins chunks without a blank between them,
and then it is the indentation that keeps two words apart. Types in
placeholders (`jdbcType`) are left out.

The two where fragments of the file differ in where they find the criteria;
`whereFragment` is what they share. `MapperCall` is a call of one of the
eleven methods of the interface with its arguments, null included.
-/
import SpringDome.Bean.UserExample

namespace SpringDome.Mapper

open SpringDome.Bean
open SpringDome.Lib.DynamicSql
open SpringDome.Lib.Sql (BoundSql)

/-- A text node without substitutions. -/
def text (s : String) : SqlNode := .text [.lit s]

/-- A property of a name. -/
def property (root name : String) : Path := ⟨root, [name]⟩

/-- A bare name. -/
def name (root : String) : Path := ⟨root, []⟩

/-! ## 1. The where fragments -/

/-- The placeholders of a criterion with a list. -/
def listItems : SqlNode :=
  .foreach ⟨property "criterion" "value", "listItem", some "(", some ")", some ","⟩
    (.text [.lit "\n                    ", .param (name "listItem"), .lit "\n                  "])

/-- The `choose` on the four kinds of criterion. -/
def criterionChoice : SqlNode :=
  .choose (.truthy (property "criterion" "noValue"))
    (.text [.lit "\n                  and ", .splice (property "criterion" "condition"),
      .lit "\n                "])
  <| .choose (.truthy (property "criterion" "singleValue"))
    (.text [.lit "\n                  and ", .splice (property "criterion" "condition"), .lit " ",
      .param (property "criterion" "value"), .lit "\n                "])
  <| .choose (.truthy (property "criterion" "betweenValue"))
    (.text [.lit "\n                  and ", .splice (property "criterion" "condition"), .lit " ",
      .param (property "criterion" "value"), .lit " and ",
      .param (property "criterion" "secondValue"), .lit "\n                "])
  <| .choose (.truthy (property "criterion" "listValue"))
    (.block [.text [.lit "\n                  and ", .splice (property "criterion" "condition"),
        .lit "\n                  "], listItems, text "\n                "])
  .skip

/-- The criterions of one criteria, in parentheses. -/
def criteriaTrim : SqlNode :=
  .trim ⟨some "(", some ")", ["AND"], []⟩
    (.block [text "\n            ",
      .foreach ⟨property "criteria" "criteria", "criterion", none, none, none⟩
        (.block [text "\n              ", criterionChoice, text "\n            "]),
      text "\n          "])

/-- One criteria: nothing unless it is valid. -/
def criteriaItem : SqlNode :=
  .block [text "\n        ",
    .ifTest (.truthy (property "criteria" "valid"))
      (.block [text "\n          ", criteriaTrim, text "\n        "]),
    text "\n      "]

/-- A where fragment over the criteria at a path. -/
def whereFragment (collection : Path) : SqlNode :=
  .block [text "\n    ",
    .where_ (.block [text "\n      ", .foreach ⟨collection, "criteria", none, none, some "or"⟩
      criteriaItem, text "\n    "]),
    text "\n  "]

/-- `Example_Where_Clause`. -/
def exampleWhereClause : SqlNode := whereFragment (name "oredCriteria")

/-- `Update_By_Example_Where_Clause`. -/
def updateByExampleWhereClause : SqlNode := whereFragment (property "example" "oredCriteria")

/-- `Base_Column_List`. -/
def baseColumnList : SqlNode := text "\n    id, name\n  "

/-- `<if test="_parameter != null">` around an included fragment. -/
def unlessParameterNull (fragment : SqlNode) : SqlNode :=
  .ifTest (.notNull (name "_parameter")) (.block [text "\n      ", fragment, text "\n    "])

/-! ## 2. The statements -/

def selectByExample : SqlNode :=
  .block [text "\n    select\n    ",
    .ifTest (.truthy (name "distinct")) (text "\n      distinct\n    "),
    text "\n    ", baseColumnList, text "\n    from t_user\n    ",
    unlessParameterNull exampleWhereClause,
    text "\n    ",
    .ifTest (.notNull (name "orderByClause"))
      (.text [.lit "\n      order by ", .splice (name "orderByClause"), .lit "\n    "]),
    text "\n    ",
    .ifTest (.notNull (name "limit"))
      (.block [text "\n      ",
        .ifTest (.notNull (name "offset"))
          (.text [.lit "\n        limit ", .splice (name "offset"), .lit ", ",
            .splice (name "limit"), .lit "\n      "]),
        text "\n      ",
        .ifTest (.isNull (name "offset"))
          (.text [.lit "\n        limit ", .splice (name "limit"), .lit "\n      "]),
        text "\n    "]),
    text "\n  "]

def selectByPrimaryKey : SqlNode :=
  .block [text "\n    select \n    ", baseColumnList,
    .text [.lit "\n    from t_user\n    where id = ", .param (name "id"), .lit "\n  "]]

def deleteByPrimaryKey : SqlNode :=
  .text [.lit "\n    delete from t_user\n    where id = ", .param (name "id"), .lit "\n  "]

def deleteByExample : SqlNode :=
  .block [text "\n    delete from t_user\n    ", unlessParameterNull exampleWhereClause,
    text "\n  "]

def insert : SqlNode :=
  .text [.lit "\n    insert into t_user (id, name)\n    values (", .param (name "id"), .lit ", ",
    .param (name "name"), .lit ")\n  "]

def insertSelective : SqlNode :=
  .block [text "\n    insert into t_user\n    ",
    .trim ⟨some "(", some ")", [], [","]⟩
      (.block [text "\n      ",
        .ifTest (.notNull (name "id")) (text "\n        id,\n      "),
        text "\n      ",
        .ifTest (.notNull (name "name")) (text "\n        name,\n      "),
        text "\n    "]),
    text "\n    ",
    .trim ⟨some "values (", some ")", [], [","]⟩
      (.block [text "\n      ",
        .ifTest (.notNull (name "id"))
          (.text [.lit "\n        ", .param (name "id"), .lit ",\n      "]),
        text "\n      ",
        .ifTest (.notNull (name "name"))
          (.text [.lit "\n        ", .param (name "name"), .lit ",\n      "]),
        text "\n    "]),
    text "\n  "]

def countByExample : SqlNode :=
  .block [text "\n    select count(*) from t_user\n    ", unlessParameterNull exampleWhereClause,
    text "\n  "]

def updateByExampleSelective : SqlNode :=
  .block [text "\n    update t_user\n    ",
    .set_ (.block [text "\n      ",
      .ifTest (.notNull (property "record" "id"))
        (.text [.lit "\n        id = ", .param (property "record" "id"), .lit ",\n      "]),
      text "\n      ",
      .ifTest (.notNull (property "record" "name"))
        (.text [.lit "\n        name = ", .param (property "record" "name"), .lit ",\n      "]),
      text "\n    "]),
    text "\n    ", unlessParameterNull updateByExampleWhereClause, text "\n  "]

def updateByExample : SqlNode :=
  .block [.text [.lit "\n    update t_user\n    set id = ", .param (property "record" "id"),
      .lit ",\n      name = ", .param (property "record" "name"), .lit "\n    "],
    unlessParameterNull updateByExampleWhereClause, text "\n  "]

def updateByPrimaryKeySelective : SqlNode :=
  .block [text "\n    update t_user\n    ",
    .set_ (.block [text "\n      ",
      .ifTest (.notNull (name "name"))
        (.text [.lit "\n        name = ", .param (name "name"), .lit ",\n      "]),
      text "\n    "]),
    .text [.lit "\n    where id = ", .param (name "id"), .lit "\n  "]]

def updateByPrimaryKey : SqlNode :=
  .text [.lit "\n    update t_user\n    set name = ", .param (name "name"),
    .lit "\n    where id = ", .param (name "id"), .lit "\n  "]

/-! ## 3. The interface -/

inductive MapperCall where
  | countByExample (ex : Option UserExample)
  | deleteByExample (ex : Option UserExample)
  | deleteByPrimaryKey (id : Option Int32)
  | insert (record : User)
  | insertSelective (record : User)
  | selectByExample (ex : Option UserExample)
  | selectByPrimaryKey (id : Option Int32)
  | updateByExampleSelective (record : User) (ex : Option UserExample)
  | updateByExample (record : User) (ex : Option UserExample)
  | updateByPrimaryKeySelective (record : User)
  | updateByPrimaryKey (record : User)

/-- A `UserExample` argument, or null. -/
def ofExample (ex : Option UserExample) : Obj := (ex.map UserExample.toObj).getD .null

/-- The map of the two `@Param` arguments of an update. -/
def updateParameters (record : User) (ex : Option UserExample) : Obj :=
  .bean [("record", record.toObj), ("example", ofExample ex), ("param1", record.toObj),
    ("param2", ofExample ex)]

namespace MapperCall

def template : MapperCall → SqlNode
  | .countByExample _ => Mapper.countByExample
  | .deleteByExample _ => Mapper.deleteByExample
  | .deleteByPrimaryKey _ => Mapper.deleteByPrimaryKey
  | .insert _ => Mapper.insert
  | .insertSelective _ => Mapper.insertSelective
  | .selectByExample _ => Mapper.selectByExample
  | .selectByPrimaryKey _ => Mapper.selectByPrimaryKey
  | .updateByExampleSelective .. => Mapper.updateByExampleSelective
  | .updateByExample .. => Mapper.updateByExample
  | .updateByPrimaryKeySelective _ => Mapper.updateByPrimaryKeySelective
  | .updateByPrimaryKey _ => Mapper.updateByPrimaryKey

def parameter : MapperCall → Obj
  | .countByExample ex | .deleteByExample ex | .selectByExample ex => ofExample ex
  | .deleteByPrimaryKey id | .selectByPrimaryKey id => ofInteger id
  | .insert record | .insertSelective record | .updateByPrimaryKeySelective record
  | .updateByPrimaryKey record => record.toObj
  | .updateByExampleSelective record ex | .updateByExample record ex => updateParameters record ex

/-- The statement the call sends, or the exception its rendering raises. -/
def boundSql (strict : Bool) (call : MapperCall) : Except RenderFailure (BoundSql Obj) :=
  getBoundSql strict call.template call.parameter

end MapperCall

end SpringDome.Mapper
