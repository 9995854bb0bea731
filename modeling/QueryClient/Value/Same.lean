import QueryClient.Value

/-!
# Values that are the same

Two values are the same when they are built alike from the same parts. Doubles are compared as
numbers, so a value that holds a NaN is not the same as itself.
-/

namespace QueryClient

mutual

def Value.same : Value → Value → Bool
  | .null, .null => true
  | .boolean a, .boolean b => a == b
  | .integer a, .integer b => a == b
  | .long a, .long b => a == b
  | .double a, .double b => a.same b
  | .string a, .string b => a == b
  | .binary a, .binary b => a == b
  | .list a, .list b => sameEach a b
  | .lob a, .lob b => a == b
  | .reference a, .reference b => a == b
  | .message a, .message b => a.same b
  | .named name fields, .named name' fields' => name == name' && sameEach fields fields'
  | _, _ => false

def sameEach : List Value → List Value → Bool
  | [], [] => true
  | a :: as, b :: bs => a.same b && sameEach as bs
  | _, _ => false

def sameRows : List Row → List Row → Bool
  | [], [] => true
  | a :: as, b :: bs => sameEach a b && sameRows as bs
  | _, _ => false

def Message.same : Message → Message → Bool
  | .handshake a, .handshake b => a == b
  | .invocation ⟨key, service, method, args⟩, .invocation ⟨key', service', method', args'⟩ =>
    key == key' && service == service' && method == method' && sameEach args args'
  | .reply ⟨key, .ok v⟩, .reply ⟨key', .ok v'⟩ => key == key' && v.same v'
  | .reply ⟨key, .error e⟩, .reply ⟨key', .error e'⟩ => key == key' && e == e'
  | .request ⟨id, sql, parameters, fetchSize, cursorType, rowLimit, timeout⟩,
    .request ⟨id', sql', parameters', fetchSize', cursorType', rowLimit', timeout'⟩ =>
    id == id' && sql == sql' && sameEach parameters parameters' && fetchSize == fetchSize'
      && cursorType == cursorType' && rowLimit == rowLimit' && timeout == timeout'
  | .results ⟨first, last, final, columns, rows, count, warnings, failure⟩,
    .results ⟨first', last', final', columns', rows', count', warnings', failure'⟩ =>
    first == first' && last == last' && final == final' && columns == columns'
      && sameRows rows rows' && count == count' && warnings == warnings' && failure == failure'
  | .chunk a, .chunk b => a == b
  | .exception a, .exception b => a == b
  | .logonRequest a, .logonRequest b => a == b
  | .logonResult a, .logonResult b => a == b
  | _, _ => false

end

end QueryClient
