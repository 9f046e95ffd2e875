import EndpointAudit.Json.Basic

namespace EndpointAudit.Prompt

def reviewSystem : List String :=
  ["You are a senior web security engineer reviewing server-side endpoint code.",
    "You read code carefully, reason about how request data flows into sinks, and " ++
      "answer only in the requested JSON format."]

def reviewUser : List String :=
  ["The project below is a <PROJECT_TYPE> web application.",
    "Analyze the HTTP endpoint <HTTP_METHOD> <SRC_NAME> located at <SRC_LINE>.",
    "",
    "### Endpoint source",
    "```",
    "<FUNCTION>",
    "```",
    "",
    "### Definitions of referenced types and symbols",
    "```",
    "<CONTEXT_INFO>",
    "```",
    "",
    "Describe every request parameter, the constraints the code places on it, and any " ++
      "input that reaches a dangerous operation.",
    "Reply with a single JSON object inside a ```json code fence using this shape:",
    "\x7b",
    "  \"status\": \"success\" | \"fail\",",
    "  \"parameters\": [\x7b\"name\": \"...\", \"location\": \"query|body|path|header\", " ++
      "\"type\": \"...\", \"constraints\": \"...\"\x7d],",
    "  \"risks\": [\x7b\"kind\": \"...\", \"parameter\": \"...\", \"evidence\": \"...\"\x7d],",
    "  \"recommendations\": [\"...\"]",
    "\x7d",
    "Use \"fail\" when the code is insufficient to understand the endpoint."]

def reviewName : String := "SA/api_analysis.json"

def reviewDocument : Json :=
  .object [("system_prompt",.ofTexts reviewSystem),("user_prompt",.ofTexts reviewUser)]

def builtins : List (String × Json) :=
  [(reviewName,reviewDocument)]

end EndpointAudit.Prompt
