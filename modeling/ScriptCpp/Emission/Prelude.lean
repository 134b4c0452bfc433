import ScriptCpp.Emission.Features

set_option autoImplicit false

namespace ScriptCpp

namespace Prelude

def lines (ls : List String) : String :=
  String.join (ls.map (· ++ "\n"))

def standardHeaders : String := lines [
  "#include <iostream>",
  "#include <vector>",
  "#include <string>",
  "#include <functional>",
  "#include <cmath>",
  "#include <algorithm>",
  "#include <cstdlib>",
  "#include <ctime>",
  "#include <stdexcept>",
  "#include <queue>",
  "#include <stack>",
  "#include <map>",
  "#include <unordered_map>",
  "#include <set>",
  "#include <regex>",
  "#include <memory>",
  "#include <sstream>",
  "#include <thread>",
  "#include <chrono>",
  "#include <future>",
  "#include <type_traits>",
  "#include <utility>"]

def guiHeaders : String := lines [
  "#include <QApplication>",
  "#include <QWidget>",
  "#include <QPushButton>",
  "#include <QLabel>",
  "#include <QLineEdit>",
  "#include <QVBoxLayout>",
  "#include <QHBoxLayout>",
  "#include <QListWidget>",
  "#include <QMessageBox>"]

def httpHeaders : String := lines [
  "#include \"httplib.h\""]

def asyncHelpers : String := lines [
  "",
  "// --- async ---",
  "template <typename Func>",
  "auto async_task(Func&& func) \x7b",
  "    return std::async(std::launch::async, std::forward<Func>(func));",
  "\x7d",
  "",
  "void delay(int milliseconds) \x7b",
  "    std::this_thread::sleep_for(std::chrono::milliseconds(milliseconds));",
  "\x7d",
  "",
  "template <typename T>",
  "T await_result(std::future<T>& future) \x7b",
  "    return future.get();",
  "\x7d",
  "",
  "template <typename T>",
  "T await_result(std::future<T>&& future) \x7b",
  "    return future.get();",
  "\x7d",
  "",
  "template <typename T>",
  "decltype(auto) await_result(T&& value) \x7b",
  "    return std::forward<T>(value);",
  "\x7d"]

def httpHelpers : String := lines [
  "",
  "// --- http request helpers ---",
  "std::string _riri_get_query(const std::multimap<std::string, std::string>& m, const std::string& key) \x7b",
  "    auto it = m.find(key);",
  "    if (it != m.end()) return it->second;",
  "    return \"\";",
  "\x7d",
  "",
  "std::string _riri_get_param(const std::unordered_map<std::string, std::string>& m, const std::string& key) \x7b",
  "    auto it = m.find(key);",
  "    if (it != m.end()) return it->second;",
  "    return \"\";",
  "\x7d"]

def guiHelpers : String := lines [
  "",
  "// --- gui ---",
  "QString qt_str(const std::string& s) \x7b return QString::fromStdString(s); \x7d",
  "std::string qt_to_std(const QString& s) \x7b return s.toStdString(); \x7d",
  "",
  "void qt_connect(std::shared_ptr<QPushButton> btn, std::string signal, std::function<void()> callback) \x7b",
  "    if (signal == \"clicked\" && btn) \x7b",
  "        QObject::connect(btn.get(), &QPushButton::clicked, callback);",
  "    \x7d",
  "\x7d",
  "",
  "std::shared_ptr<QListWidget> _riri_create_list() \x7b",
  "    return std::make_shared<QListWidget>();",
  "\x7d",
  "",
  "void _riri_list_add(std::shared_ptr<QListWidget> list, const std::string& item) \x7b",
  "    list->addItem(qt_str(item));",
  "\x7d",
  "",
  "void _riri_list_clear(std::shared_ptr<QListWidget> list) \x7b",
  "    list->clear();",
  "\x7d",
  "",
  "void _riri_msg_box(const std::string& msg) \x7b",
  "    QMessageBox box;",
  "    box.setText(qt_str(msg));",
  "    box.exec();",
  "\x7d",
  "",
  "// Widgets are owned by the Qt parent hierarchy, not by QtElement.",
  "struct QtElement \x7b",
  "    QWidget* widget = nullptr;",
  "    QLayout* layout = nullptr;",
  "    std::string tagName;",
  "",
  "    explicit QtElement(std::string tag) : tagName(std::move(tag)) \x7b\x7d",
  "",
  "    void setAttribute(const std::string& key, const std::string& value) \x7b",
  "        if (!widget) return;",
  "        if (key == \"text\") \x7b",
  "            if (auto btn = qobject_cast<QPushButton*>(widget)) btn->setText(qt_str(value));",
  "            else if (auto lbl = qobject_cast<QLabel*>(widget)) lbl->setText(qt_str(value));",
  "            else if (auto inp = qobject_cast<QLineEdit*>(widget)) inp->setText(qt_str(value));",
  "        \x7d else if (key == \"title\") \x7b",
  "            widget->setWindowTitle(qt_str(value));",
  "        \x7d else if (key == \"style\") \x7b",
  "            widget->setStyleSheet(qt_str(value));",
  "        \x7d else if (key == \"placeholder\") \x7b",
  "            if (auto inp = qobject_cast<QLineEdit*>(widget)) inp->setPlaceholderText(qt_str(value));",
  "        \x7d",
  "    \x7d",
  "",
  "    std::string getValue() \x7b",
  "        if (auto inp = qobject_cast<QLineEdit*>(widget)) return qt_to_std(inp->text());",
  "        return \"\";",
  "    \x7d",
  "",
  "    void addItem(const std::string& text) \x7b",
  "        if (auto lst = qobject_cast<QListWidget*>(widget)) lst->addItem(qt_str(text));",
  "    \x7d",
  "",
  "    void clearItems() \x7b",
  "        if (auto lst = qobject_cast<QListWidget*>(widget)) lst->clear();",
  "    \x7d",
  "",
  "    void addEventListener(const std::string& event, std::function<void()> callback) \x7b",
  "        if (event != \"click\") return;",
  "        if (auto btn = qobject_cast<QPushButton*>(widget)) \x7b",
  "            QObject::connect(btn, &QPushButton::clicked, callback);",
  "        \x7d",
  "    \x7d",
  "",
  "    void appendChild(QtElement* child) \x7b",
  "        if (!widget || !child || !child->widget) return;",
  "        if (layout) \x7b",
  "            layout->addWidget(child->widget);",
  "        \x7d else \x7b",
  "            child->widget->setParent(widget);",
  "            child->widget->show();",
  "        \x7d",
  "    \x7d",
  "",
  "    void show() \x7b",
  "        if (widget) widget->show();",
  "    \x7d",
  "\x7d;",
  "",
  "struct Document \x7b",
  "    QtElement* createElement(const std::string& tag) \x7b",
  "        auto* el = new QtElement(tag);",
  "        if (tag == \"div\" || tag == \"window\") \x7b",
  "            el->widget = new QWidget();",
  "            el->layout = new QVBoxLayout(el->widget);",
  "            if (tag == \"window\") el->widget->resize(400, 300);",
  "        \x7d else if (tag == \"span\") \x7b",
  "            el->widget = new QWidget();",
  "            el->layout = new QHBoxLayout(el->widget);",
  "        \x7d else if (tag == \"button\") \x7b",
  "            el->widget = new QPushButton();",
  "        \x7d else if (tag == \"label\") \x7b",
  "            el->widget = new QLabel();",
  "        \x7d else if (tag == \"input\") \x7b",
  "            el->widget = new QLineEdit();",
  "        \x7d else if (tag == \"list\") \x7b",
  "            el->widget = new QListWidget();",
  "        \x7d",
  "        return el;",
  "    \x7d",
  "\x7d;"]

def consoleHelpers : String := lines [
  "",
  "// --- io ---",
  "std::string _riri_input() \x7b",
  "    std::string line;",
  "    std::getline(std::cin, line);",
  "    return line;",
  "\x7d",
  "",
  "template <typename T>",
  "void _riri_tprint(const std::vector<T>& vec) \x7b",
  "    std::cout << \"+----------------+\" << std::endl;",
  "    std::cout << \"| Index | Value  |\" << std::endl;",
  "    std::cout << \"+----------------+\" << std::endl;",
  "    for (size_t i = 0; i < vec.size(); ++i) \x7b",
  "        std::cout << \"| \" << i << \"\\t| \" << vec[i] << \"\\t|\" << std::endl;",
  "    \x7d",
  "    std::cout << \"+----------------+\" << std::endl;",
  "\x7d"]

def pushPopHelpers : String := lines [
  "",
  "// --- push / pop over vectors and user types ---",
  "template <typename T, typename U>",
  "void _riri_push(std::vector<T>& vec, U&& value) \x7b",
  "    vec.push_back(std::forward<U>(value));",
  "\x7d",
  "",
  "template <typename T, typename U>",
  "void _riri_push(T* obj, U&& value) \x7b",
  "    obj->push(std::forward<U>(value));",
  "\x7d",
  "",
  "template <typename T, typename U>",
  "void _riri_push(std::shared_ptr<T> obj, U&& value) \x7b",
  "    obj->push(std::forward<U>(value));",
  "\x7d",
  "",
  "template <typename T>",
  "T _riri_pop(std::vector<T>& vec) \x7b",
  "    if (vec.empty()) return T();",
  "    T value = vec.back();",
  "    vec.pop_back();",
  "    return value;",
  "\x7d",
  "",
  "template <typename T>",
  "auto _riri_pop(T* obj) \x7b",
  "    return obj->pop();",
  "\x7d",
  "",
  "template <typename T>",
  "auto _riri_pop(std::shared_ptr<T> obj) \x7b",
  "    return obj->pop();",
  "\x7d"]

def arrayHelpers : String := lines [
  "",
  "// --- array helpers ---",
  "template <typename T, typename Func>",
  "auto _riri_map(const std::vector<T>& vec, Func callback) \x7b",
  "    std::vector<std::decay_t<std::invoke_result_t<Func&, const T&>>> result;",
  "    result.reserve(vec.size());",
  "    for (const auto& item : vec) result.push_back(callback(item));",
  "    return result;",
  "\x7d",
  "",
  "template <typename T, typename Func>",
  "std::vector<T> _riri_filter(const std::vector<T>& vec, Func callback) \x7b",
  "    std::vector<T> result;",
  "    for (const auto& item : vec) \x7b",
  "        if (callback(item)) result.push_back(item);",
  "    \x7d",
  "    return result;",
  "\x7d",
  "",
  "template <typename T, typename Func>",
  "void _riri_forEach(const std::vector<T>& vec, Func callback) \x7b",
  "    for (size_t i = 0; i < vec.size(); i++) \x7b",
  "        if constexpr (std::is_invocable_v<Func&, const T&, int>) \x7b",
  "            callback(vec[i], static_cast<int>(i));",
  "        \x7d else \x7b",
  "            callback(vec[i]);",
  "        \x7d",
  "    \x7d",
  "\x7d",
  "",
  "template <typename T, typename Func, typename Acc>",
  "Acc _riri_reduce(const std::vector<T>& vec, Func callback, Acc initial) \x7b",
  "    Acc result = initial;",
  "    for (size_t i = 0; i < vec.size(); i++) \x7b",
  "        if constexpr (std::is_invocable_v<Func&, Acc&, const T&, int>) \x7b",
  "            result = callback(result, vec[i], static_cast<int>(i));",
  "        \x7d else \x7b",
  "            result = callback(result, vec[i]);",
  "        \x7d",
  "    \x7d",
  "    return result;",
  "\x7d",
  "",
  "template <typename T>",
  "std::vector<T> _riri_slice(const std::vector<T>& vec, int start, int end = -1) \x7b",
  "    int size = static_cast<int>(vec.size());",
  "    if (end == -1) end = size;",
  "    if (start < 0) start = size + start;",
  "    if (end < 0) end = size + end;",
  "    if (start < 0) start = 0;",
  "    if (end > size) end = size;",
  "    if (start >= end) return std::vector<T>();",
  "    return std::vector<T>(vec.begin() + start, vec.begin() + end);",
  "\x7d",
  "",
  "template <typename T, typename U>",
  "int _riri_indexOf(const std::vector<T>& vec, const U& value) \x7b",
  "    for (size_t i = 0; i < vec.size(); i++) \x7b",
  "        if (vec[i] == value) return static_cast<int>(i);",
  "    \x7d",
  "    return -1;",
  "\x7d",
  "",
  "template <typename T, typename U>",
  "bool _riri_includes(const std::vector<T>& vec, const U& value) \x7b",
  "    return _riri_indexOf(vec, value) != -1;",
  "\x7d",
  "",
  "template <typename T>",
  "std::vector<T> _riri_concat(const std::vector<T>& a, const std::vector<T>& b) \x7b",
  "    std::vector<T> result = a;",
  "    result.insert(result.end(), b.begin(), b.end());",
  "    return result;",
  "\x7d",
  "",
  "template <typename T>",
  "std::vector<T> _riri_reverse(std::vector<T> vec) \x7b",
  "    std::reverse(vec.begin(), vec.end());",
  "    return vec;",
  "\x7d",
  "",
  "template <typename T>",
  "std::string _riri_join(const std::vector<T>& vec, const std::string& separator = \",\") \x7b",
  "    std::ostringstream out;",
  "    for (size_t i = 0; i < vec.size(); i++) \x7b",
  "        if (i > 0) out << separator;",
  "        out << vec[i];",
  "    \x7d",
  "    return out.str();",
  "\x7d"]

def stringHelpers : String := lines [
  "",
  "// --- string helpers ---",
  "std::vector<std::string> _riri_split(std::string str, const std::string& delimiter) \x7b",
  "    std::vector<std::string> result;",
  "    if (delimiter.empty()) \x7b",
  "        result.push_back(str);",
  "        return result;",
  "    \x7d",
  "    size_t pos = 0;",
  "    while ((pos = str.find(delimiter)) != std::string::npos) \x7b",
  "        result.push_back(str.substr(0, pos));",
  "        str.erase(0, pos + delimiter.length());",
  "    \x7d",
  "    result.push_back(str);",
  "    return result;",
  "\x7d",
  "",
  "std::string _riri_toLowerCase(std::string str) \x7b",
  "    std::transform(str.begin(), str.end(), str.begin(), [](unsigned char c) \x7b return std::tolower(c); \x7d);",
  "    return str;",
  "\x7d",
  "",
  "std::string _riri_toUpperCase(std::string str) \x7b",
  "    std::transform(str.begin(), str.end(), str.begin(), [](unsigned char c) \x7b return std::toupper(c); \x7d);",
  "    return str;",
  "\x7d",
  "",
  "std::string _riri_trim(std::string str) \x7b",
  "    const char* blank = \" \\t\\n\\r\";",
  "    auto first = str.find_first_not_of(blank);",
  "    if (first == std::string::npos) return \"\";",
  "    auto last = str.find_last_not_of(blank);",
  "    return str.substr(first, last - first + 1);",
  "\x7d",
  "",
  "bool _riri_startsWith(const std::string& str, const std::string& prefix) \x7b",
  "    return str.rfind(prefix, 0) == 0;",
  "\x7d",
  "",
  "int _riri_parseInt(const std::string& str) \x7b",
  "    return std::stoi(str);",
  "\x7d",
  "",
  "double _riri_parseFloat(const std::string& str) \x7b",
  "    return std::stod(str);",
  "\x7d"]

def dataStructures : String := lines [
  "",
  "// --- data structures ---",
  "struct Node \x7b",
  "    int data;",
  "    std::shared_ptr<Node> left = nullptr;",
  "    std::shared_ptr<Node> right = nullptr;",
  "    int height = 1;",
  "",
  "    explicit Node(int value) : data(value) \x7b\x7d",
  "\x7d;",
  "",
  "struct BinaryTree \x7b",
  "    std::shared_ptr<Node> root = nullptr;",
  "",
  "    void insert(int value) \x7b",
  "        if (!root) \x7b",
  "            root = std::make_shared<Node>(value);",
  "            return;",
  "        \x7d",
  "        insertRec(root, value);",
  "    \x7d",
  "",
  "    void insertRec(std::shared_ptr<Node> node, int value) \x7b",
  "        auto& next = value < node->data ? node->left : node->right;",
  "        if (next) insertRec(next, value);",
  "        else next = std::make_shared<Node>(value);",
  "    \x7d",
  "",
  "    void printInOrder() \x7b",
  "        printInOrderRec(root);",
  "        std::cout << std::endl;",
  "    \x7d",
  "",
  "    void printInOrderRec(std::shared_ptr<Node> node) \x7b",
  "        if (!node) return;",
  "        printInOrderRec(node->left);",
  "        std::cout << node->data << \" \";",
  "        printInOrderRec(node->right);",
  "    \x7d",
  "\x7d;",
  "",
  "struct BST : public BinaryTree \x7b",
  "    bool search(int value) \x7b",
  "        auto node = root;",
  "        while (node) \x7b",
  "            if (node->data == value) return true;",
  "            node = value < node->data ? node->left : node->right;",
  "        \x7d",
  "        return false;",
  "    \x7d",
  "\x7d;",
  "",
  "struct AVL \x7b",
  "    std::shared_ptr<Node> root = nullptr;",
  "",
  "    static int height(const std::shared_ptr<Node>& n) \x7b return n ? n->height : 0; \x7d",
  "",
  "    static void update(const std::shared_ptr<Node>& n) \x7b",
  "        n->height = 1 + std::max(height(n->left), height(n->right));",
  "    \x7d",
  "",
  "    static int balance(const std::shared_ptr<Node>& n) \x7b",
  "        return n ? height(n->left) - height(n->right) : 0;",
  "    \x7d",
  "",
  "    static std::shared_ptr<Node> rightRotate(std::shared_ptr<Node> y) \x7b",
  "        auto x = y->left;",
  "        y->left = x->right;",
  "        x->right = y;",
  "        update(y);",
  "        update(x);",
  "        return x;",
  "    \x7d",
  "",
  "    static std::shared_ptr<Node> leftRotate(std::shared_ptr<Node> x) \x7b",
  "        auto y = x->right;",
  "        x->right = y->left;",
  "        y->left = x;",
  "        update(x);",
  "        update(y);",
  "        return y;",
  "    \x7d",
  "",
  "    std::shared_ptr<Node> insertRec(std::shared_ptr<Node> node, int value) \x7b",
  "        if (!node) return std::make_shared<Node>(value);",
  "        if (value < node->data) node->left = insertRec(node->left, value);",
  "        else if (value > node->data) node->right = insertRec(node->right, value);",
  "        else return node;",
  "",
  "        update(node);",
  "        int b = balance(node);",
  "        if (b > 1 && value < node->left->data) return rightRotate(node);",
  "        if (b < -1 && value > node->right->data) return leftRotate(node);",
  "        if (b > 1 && value > node->left->data) \x7b",
  "            node->left = leftRotate(node->left);",
  "            return rightRotate(node);",
  "        \x7d",
  "        if (b < -1 && value < node->right->data) \x7b",
  "            node->right = rightRotate(node->right);",
  "            return leftRotate(node);",
  "        \x7d",
  "        return node;",
  "    \x7d",
  "",
  "    void insert(int value) \x7b root = insertRec(root, value); \x7d",
  "",
  "    void printInOrder() \x7b",
  "        printInOrderRec(root);",
  "        std::cout << std::endl;",
  "    \x7d",
  "",
  "    void printInOrderRec(std::shared_ptr<Node> node) \x7b",
  "        if (!node) return;",
  "        printInOrderRec(node->left);",
  "        std::cout << node->data << \" \";",
  "        printInOrderRec(node->right);",
  "    \x7d",
  "\x7d;",
  "",
  "// Max-heap over a flat array.",
  "struct Heap \x7b",
  "    std::vector<int> data;",
  "",
  "    void push(int value) \x7b",
  "        data.push_back(value);",
  "        std::push_heap(data.begin(), data.end());",
  "    \x7d",
  "",
  "    int pop() \x7b",
  "        if (data.empty()) return -1;",
  "        std::pop_heap(data.begin(), data.end());",
  "        int value = data.back();",
  "        data.pop_back();",
  "        return value;",
  "    \x7d",
  "",
  "    int top() \x7b return data.empty() ? -1 : data.front(); \x7d",
  "",
  "    void print() \x7b",
  "        for (int value : data) std::cout << value << \" \";",
  "        std::cout << std::endl;",
  "    \x7d",
  "\x7d;",
  "",
  "struct Graph \x7b",
  "    std::map<int, std::vector<std::pair<int, int>>> adj;",
  "    std::map<int, std::pair<int, int>> coords;",
  "",
  "    void add_edge(int u, int v, int w) \x7b adj[u].push_back(\x7bv, w\x7d); \x7d",
  "",
  "    void set_pos(int u, int x, int y) \x7b coords[u] = \x7bx, y\x7d; \x7d",
  "",
  "    std::vector<int> bfs(int start) \x7b",
  "        std::vector<int> order;",
  "        std::queue<int> pending;",
  "        std::set<int> seen\x7bstart\x7d;",
  "        pending.push(start);",
  "        while (!pending.empty()) \x7b",
  "            int u = pending.front();",
  "            pending.pop();",
  "            order.push_back(u);",
  "            for (auto& [v, w] : adj[u]) \x7b",
  "                if (seen.insert(v).second) pending.push(v);",
  "            \x7d",
  "        \x7d",
  "        return order;",
  "    \x7d",
  "",
  "    std::vector<int> dfs(int start) \x7b",
  "        std::vector<int> order;",
  "        std::stack<int> pending;",
  "        std::set<int> seen;",
  "        pending.push(start);",
  "        while (!pending.empty()) \x7b",
  "            int u = pending.top();",
  "            pending.pop();",
  "            if (!seen.insert(u).second) continue;",
  "            order.push_back(u);",
  "            auto& neighbors = adj[u];",
  "            for (auto it = neighbors.rbegin(); it != neighbors.rend(); ++it) \x7b",
  "                if (!seen.count(it->first)) pending.push(it->first);",
  "            \x7d",
  "        \x7d",
  "        return order;",
  "    \x7d",
  "",
  "    std::vector<int> dijkstra(int start, int end) \x7b",
  "        using Entry = std::pair<int, int>;",
  "        std::priority_queue<Entry, std::vector<Entry>, std::greater<Entry>> pq;",
  "        std::map<int, int> dist;",
  "        std::map<int, int> parent;",
  "        dist[start] = 0;",
  "        pq.push(\x7b0, start\x7d);",
  "        while (!pq.empty()) \x7b",
  "            auto [d, u] = pq.top();",
  "            pq.pop();",
  "            if (d > dist[u]) continue;",
  "            if (u == end) break;",
  "            for (auto& [v, w] : adj[u]) \x7b",
  "                if (!dist.count(v) || dist[u] + w < dist[v]) \x7b",
  "                    dist[v] = dist[u] + w;",
  "                    parent[v] = u;",
  "                    pq.push(\x7bdist[v], v\x7d);",
  "                \x7d",
  "            \x7d",
  "        \x7d",
  "        return walkBack(start, end, dist.count(end) > 0, parent);",
  "    \x7d",
  "",
  "    double heuristic(int u, int v) \x7b",
  "        if (!coords.count(u) || !coords.count(v)) return 0;",
  "        double dx = coords[u].first - coords[v].first;",
  "        double dy = coords[u].second - coords[v].second;",
  "        return std::sqrt(dx * dx + dy * dy);",
  "    \x7d",
  "",
  "    std::vector<int> astar(int start, int end) \x7b",
  "        using Entry = std::pair<double, int>;",
  "        std::priority_queue<Entry, std::vector<Entry>, std::greater<Entry>> pq;",
  "        std::map<int, int> g;",
  "        std::map<int, int> parent;",
  "        g[start] = 0;",
  "        pq.push(\x7bheuristic(start, end), start\x7d);",
  "        while (!pq.empty()) \x7b",
  "            int u = pq.top().second;",
  "            pq.pop();",
  "            if (u == end) break;",
  "            for (auto& [v, w] : adj[u]) \x7b",
  "                int tentative = g[u] + w;",
  "                if (!g.count(v) || tentative < g[v]) \x7b",
  "                    g[v] = tentative;",
  "                    parent[v] = u;",
  "                    pq.push(\x7btentative + heuristic(v, end), v\x7d);",
  "                \x7d",
  "            \x7d",
  "        \x7d",
  "        return walkBack(start, end, g.count(end) > 0, parent);",
  "    \x7d",
  "",
  "    static std::vector<int> walkBack(int start, int end, bool reached, std::map<int, int>& parent) \x7b",
  "        std::vector<int> path;",
  "        if (!reached) return path;",
  "        for (int at = end; at != start; at = parent[at]) path.push_back(at);",
  "        path.push_back(start);",
  "        std::reverse(path.begin(), path.end());",
  "        return path;",
  "    \x7d",
  "\x7d;",
  "",
  "struct Regex \x7b",
  "    std::regex re;",
  "    std::string pattern;",
  "",
  "    explicit Regex(std::string p) : pattern(std::move(p)) \x7b",
  "        try \x7b",
  "            re = std::regex(pattern);",
  "        \x7d catch (const std::regex_error& e) \x7b",
  "            std::cerr << \"Regex error: \" << e.what() << std::endl;",
  "        \x7d",
  "    \x7d",
  "",
  "    bool match(const std::string& s) \x7b return std::regex_search(s, re); \x7d",
  "",
  "    std::string replace(const std::string& s, const std::string& replacement) \x7b",
  "        return std::regex_replace(s, re, replacement);",
  "    \x7d",
  "\x7d;"]

end Prelude

def prelude (features : Features) : String :=
  Prelude.standardHeaders ++
    (if features.gui then Prelude.guiHeaders else "") ++
    (if features.http then Prelude.httpHeaders else "") ++
    Prelude.asyncHelpers ++
    (if features.http then Prelude.httpHelpers else "") ++
    (if features.gui then Prelude.guiHelpers else "") ++
    Prelude.consoleHelpers ++ Prelude.pushPopHelpers ++ Prelude.arrayHelpers ++
    Prelude.stringHelpers ++ Prelude.dataStructures

namespace Prelude

/-- Whether `name` occurs in `cs`, which `before` precedes, after a blank or a star and right before
an opening parenthesis. Occurrences are taken from the left and do not overlap. -/
def callsIn (name : List Char) (before : Option Char) (cs : List Char) : Bool :=
  match cs with
  | [] => false
  | c :: rest =>
      if _h : name ≠ [] ∧ name.isPrefixOf (c :: rest) then
        let after := (c :: rest).drop name.length
        ((before = some ' ' || before = some '*') && after.head? = some '(') ||
          callsIn name name.getLast? after
      else
        (name.isEmpty && (before = some ' ' || before = some '*') && c = '(') ||
          callsIn name (some c) rest
termination_by cs.length
decreasing_by
  · have := List.length_pos_iff.mpr _h.1
    simp only [List.length_drop, List.length_cons]
    omega
  · simp

def defines (features : Features) (name : String) : Bool :=
  callsIn name.toList none (prelude features).toList

end Prelude

end ScriptCpp
