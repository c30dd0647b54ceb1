import ServiceQuery.Request
import ServiceQuery.Wire.Model
import ServiceQuery.Wire.Resource

namespace ServiceQuery

/-- The JSON form of named values, as objects. -/
def Value.parametersToJson (parameters : List (String × Value)) : Json :=
  .array (parameters.map fun (name, value) =>
    .object [("name", .string name), ("value", value.toJson)])

/-- The method that a JSON value names. -/
def HttpMethod.ofJson? : Json → Option HttpMethod
  | .string "GET" => some get
  | .string "POST" => some post
  | .string "DELETE" => some delete
  | _ => none

/-- The JSON form of a list of replacements. -/
def Replacements.toJson (replacements : Replacements) : Json :=
  .object
    [("entries", .array (replacements.map fun (generated, replaced) =>
      .pair generated.toJson replaced.toJson))]

/-- The JSON form of a request. -/
def Request.toJson (request : Request) : Json :=
  .object
    [("uri", .string request.uri),
      ("version", .string request.version.text),
      ("element_type", request.elementType.toJson),
      ("projector", .ofOption Lambda.toJson request.projector),
      ("rewrites", request.replacements.toJson),
      ("http_method", .string request.method.text),
      ("single_result", .ofOption Json.bool request.singleResult),
      ("body_parameters", Value.parametersToJson request.bodyParameters),
      ("uri_parameters", Value.parametersToJson request.uriParameters)]

end ServiceQuery
