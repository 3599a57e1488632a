import LiveTemplate.Template.Error

/-! Why a command fails. What a JSON text or a file has wrong in detail is left out of the messages. -/

namespace LiveTemplate

abbrev Files :=
  String → Option String

inductive CommandError where
  | unreadable (path : String)
  | invalidJson (path : String)
  | invalidConfig
  | invalidTemplate (path : String)
  | noInstance (path : String)
  | noParts (path : String)
  | updateFailed (path : String) (cause : Failure)
  deriving DecidableEq

namespace CommandError

def messages : CommandError → List String
  | unreadable path => [s!"failed to read {path}"]
  | invalidJson path => [s!"invalid JSON in {path}"]
  | invalidConfig => ["invalid template config"]
  | invalidTemplate path => [s!"failed to parse {path}", PartError.markup.message]
  | noInstance path => [s!"no instance for {path}: no placeholders, or a callback failed"]
  | noParts path => [s!"no placeholders in {path}"]
  | updateFailed path cause => s!"update from {path} failed" :: cause.messages

end CommandError

end LiveTemplate
