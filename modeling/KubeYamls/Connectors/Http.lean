/-! # Requests to the API of an identity provider

What `get` of the GitHub and the Bitbucket connector sees of a request: where it went
wrong, or the decoded body. -/
namespace KubeYamls.Connectors

/-- What came of a GET request for a value of type `β`. -/
inductive Reply (β : Type) where
  /-- `http.NewRequest` refused the URL -/
  | newReq (err : String)
  /-- `client.Do` failed -/
  | unanswered (err : String)
  /-- a status other than 200, and the body could not be read -/
  | unread (status err : String)
  /-- a status other than 200 -/
  | refused (status body : String)
  | undecoded (err : String)
  | decoded (v : β)

/-- The texts in which the two versions of `get` differ. -/
structure Texts where
  newReq : String
  getURL : String
  readBody : String → String
  decode : String

def Reply.get {β : Type} (texts : Texts) : Reply β → Except String β
  | .newReq err => .error (texts.newReq ++ err)
  | .unanswered err => .error (texts.getURL ++ err)
  | .unread status err => .error (texts.readBody status ++ err)
  | .refused status body => .error (status ++ ": " ++ body)
  | .undecoded err => .error (texts.decode ++ err)
  | .decoded v => .ok v

end KubeYamls.Connectors
