import UtsInsight.Document
import UtsInsight.Json
import UtsInsight.Registry

/-!
# Messages of a session

What an editor says to a session: questions about open documents, news about them, the beginning and
the end of the session, and messages that are not served. A question waits for a reply, and so do
some of the messages that are not served.
-/

namespace UtsInsight.Session

/-- Questions about an open document. -/
inductive Query where
  | completion (uri : Uri) (position : Position)
  | hover (uri : Uri) (position : Position)
  | definition (uri : Uri) (position : Position)
  | references (uri : Uri) (position : Position)
  | outline (uri : Uri)
  | signatureHelp (uri : Uri) (position : Position)
  deriving DecidableEq, Repr

/-- News about documents and settings. -/
inductive Event where
  | opened (uri : Uri) (text : List Char) (version : Int)
  | changed (uri : Uri) (edits : List Edit) (version : Int)
  | closed (uri : Uri)
  | configured (settings : Json)

/-- What an editor sends. -/
inductive Message where
  /-- The first message of a session, with the options of the client. -/
  | startUp (options : Option Json)
  | shutdown
  /-- A shutdown that does not wait for a reply. -/
  | silentShutdown
  | exit
  | query (query : Query)
  | event (event : Event)
  /-- A request of the protocol that is not served. -/
  | unserved
  /-- A request for something that the protocol only has as news. -/
  | misplaced
  /-- A request that the protocol does not have. -/
  | unknown
  /-- A message without reply that has no effect. -/
  | ignored

end UtsInsight.Session
